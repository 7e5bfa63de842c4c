import WgTcp.Peer.Flags

/-!
# Claimed removals get done

While a peer is live, a claimed removal has its work pending or its worker on
the way to the lock, or somebody will see to it: the holder of the lock, who
gives the claim up or queues the work, or the state callback that made the
claim. A stop clears what the cancelled work leaves behind, so that the next
start begins with every flag down.
-/

namespace WgTcp

/-! ## The removal workers -/

/-- The thread gives the claim of a direction up, or queues its work, before it gives the lock
back. -/
def Owner.restores (inbound : Bool) : Owner → Bool
  | .unwind _ | .outbound _ => !inbound
  | .inbound => inbound
  | .promoteInbound _ _ | .promoteOutbound _ => true
  | _ => false

def Plan.restores (inbound : Bool) : Plan → Bool
  | .detach _ owner => owner.restores inbound
  | .promote _ _ _ => true
  | _ => false

def Holder.restores (inbound : Bool) : Holder → Bool
  | .drain _ plan _ | .cancelRead plan | .cancelWrite plan | .clearFlags plan =>
      plan.restores inbound
  | .reset _ owner | .release _ owner | .purge _ owner | .shutdown _ owner =>
      owner.restores inbound
  | .unwind _ _ | .unwindFinish _ | .unwindQueue _ | .outboundView _ | .outboundFinish _ _ _ =>
      !inbound
  | .inboundView | .inboundFinish _ => inbound
  | .promotePublish _ => true
  | _ => false

/-- The removal worker is on its way to the lock. -/
def OutboundPc.starts : OutboundPc → Bool
  | .cancelRetry _ | .wait _ => true
  | _ => false

namespace State

variable {σ τ : State} {h k : Holder} {inbound : Bool}

def RemovalStarts (σ : State) (inbound : Bool) : Prop :=
  if inbound then σ.inbound = .wait else σ.outbound.starts = true

/-- A state callback is about to queue the removal that it has claimed. -/
def CallbackRemoves (σ : State) (inbound : Bool) : Prop :=
  ∃ s tail, (σ.socks s).userData = some inbound ∧
    (σ.socks s).callback = some (.stateTail tail) ∧ tail.removal = true

def RemovalBacked (σ : State) (inbound : Bool) : Prop :=
  σ.peer.live σ.device = true → (σ.peer.removalOf inbound).scheduled = true →
    (σ.peer.removalOf inbound).work = true ∨ σ.RemovalStarts inbound ∨
      σ.lock.any (Holder.restores inbound) = true ∨ σ.CallbackRemoves inbound

/-- A callback that is under way keeps its promise while another step is made. -/
theorem CallbackRemoves.keep (hr : σ.CallbackRemoves inbound)
    (h : ∀ s, (σ.socks s).callbackRunning = true →
      (τ.socks s).userData = (σ.socks s).userData ∧ (τ.socks s).callback = (σ.socks s).callback) :
    τ.CallbackRemoves inbound := by
  obtain ⟨s, tail, hdata, hcb, hremoval⟩ := hr
  obtain ⟨hu, hc⟩ := h s (by simp [Sock.callbackRunning, hcb, Callback.running])
  exact ⟨s, tail, hu.trans hdata, hc.trans hcb, hremoval⟩

theorem RemovalBacked.step (hi : σ.RemovalBacked inbound)
    (hlive : τ.peer.live τ.device = true → σ.peer.live σ.device = true)
    (hr : (σ.peer.removalOf inbound).Arms (τ.peer.removalOf inbound))
    (hstarts : σ.RemovalStarts inbound → τ.RemovalStarts inbound)
    (hcallback : σ.CallbackRemoves inbound → τ.CallbackRemoves inbound)
    (hrestores : σ.lock.any (Holder.restores inbound) = true →
      τ.lock.any (Holder.restores inbound) = true) : τ.RemovalBacked inbound := by
  intro hl hs
  rcases hr.1 hs with hs | hw
  · exact (hi (hlive hl) hs).imp hr.2 (.imp hstarts (.imp hrestores hcallback))
  · exact .inl hw

/-! ### Steps that only arm -/

/-- A step of anything but the threads that take the lock and the state callbacks. -/
structure Arming (σ τ : State) : Prop where
  device : τ.device = σ.device
  keeps : σ.peer.Keeps σ.device τ.peer
  queues : σ.peer.Queues τ.peer
  reconnect : σ.peer.tcpReconnectRequested = true → τ.peer.tcpReconnectRequested = true
  removes : ∀ inbound, σ.CallbackRemoves inbound → τ.CallbackRemoves inbound
  lock : τ.lock = σ.lock
  outbound : τ.outbound = σ.outbound
  inbound : τ.inbound = σ.inbound
  stop : τ.stop = σ.stop

theorem Arming.starts (ha : σ.Arming τ) (h : σ.RemovalStarts inbound) :
    τ.RemovalStarts inbound := by
  unfold RemovalStarts at h ⊢
  rwa [ha.outbound, ha.inbound]

theorem Arming.removalBacked (ha : σ.Arming τ) (hi : σ.RemovalBacked inbound) :
    τ.RemovalBacked inbound := by
  refine hi.step ?_ (ha.queues.removal inbound) ha.starts (ha.removes inbound) ?_
  · rw [ha.device]
    exact ha.keeps.live
  · rw [ha.lock]
    exact id

/-- A step on the socket `s` keeps the promises of its state callback. -/
theorem CallbackRemoves.update {s : SockId} {sk : Sock} (hr : σ.CallbackRemoves inbound)
    (hsocks : τ.socks = Function.update σ.socks s sk)
    (h : ∀ tail, (σ.socks s).userData = some inbound →
      (σ.socks s).callback = some (.stateTail tail) → tail.removal = true →
      sk.userData = some inbound ∧
        ∃ tail', sk.callback = some (.stateTail tail') ∧ tail'.removal = true) :
    τ.CallbackRemoves inbound := by
  obtain ⟨t, tail, hdata, hcb, hremoval⟩ := hr
  by_cases ht : t = s
  · subst ht
    obtain ⟨hdata', tail', hcb', hremoval'⟩ := h tail hdata hcb hremoval
    exact ⟨t, tail', by simpa [hsocks] using hdata', by simpa [hsocks] using hcb', hremoval'⟩
  · exact ⟨t, tail, by simpa [hsocks, ht] using hdata, by simpa [hsocks, ht] using hcb, hremoval⟩

theorem kernelStep_arming {e : KernelEvent} (h : σ.kernelStep e = some τ) : σ.Arming τ := by
  obtain ⟨sk, hsk, rfl⟩ := Option.map_eq_some_iff.mp h
  refine ⟨rfl, (Peer.Outside.refl _ _).toKeeps, .refl _, id, ?_, rfl, rfl, rfl, rfl⟩
  intro inbound hr
  refine hr.update rfl fun tail hdata hcb hremoval => ?_
  cases e with
  | accept s connectionId =>
    obtain ⟨-, ⟨⟩⟩ := Option.ite_none_right_eq_some.mp hsk
    exact ⟨hdata, tail, hcb, hremoval⟩
  | foreignRead s n =>
    simp only [Sock.kernel] at hsk
    split at hsk
    · cases hsk
      exact ⟨hdata, tail, hcb, hremoval⟩
    · cases hsk
  | arrive | room | transition =>
    obtain ⟨⟨-, hnone, -⟩, -⟩ := Option.ite_none_right_eq_some.mp hsk
    rw [hcb] at hnone
    cases hnone

theorem readStep_arming {A : SkbAllocator} {choice : ReadChoice}
    (h : σ.readStep A choice = some τ) : σ.Arming τ := by
  cases readStep_cases h with
  | start =>
    exact ⟨rfl, Peer.keeps_stream _ _ _ _ _ _ (fun h => by cases h) id, .of_eq rfl rfl rfl, id,
      fun _ => id, rfl,
      rfl, rfl, rfl⟩
  | pass s n =>
    refine ⟨rfl, Peer.keeps_stream _ _ _ _ _ _ id id, .of_eq rfl rfl rfl, id, fun inbound hr => ?_,
      rfl, rfl, rfl, rfl⟩
    exact hr.update rfl fun tail hdata hcb hremoval => ⟨hdata, tail, hcb, hremoval⟩
  | finish captured budget =>
    refine ⟨rfl, (Peer.finishReader_outside _ _ _ _ _).toKeeps, ?_, ?_, fun _ => id, rfl, rfl, rfl,
      rfl⟩
    all_goals
      dsimp only [readFinish, setPeer_peer, Peer.finishReader]
      split
    · exact .of_eq rfl rfl rfl
    · exact .of_eq rfl rfl rfl
    · exact id
    · exact id

theorem writeStep_arming {choice : SendChoice} (h : σ.writeStep choice = some τ) : σ.Arming τ := by
  cases writeStep_cases h with
  | start =>
    exact ⟨rfl, Peer.keeps_stream _ _ _ _ _ _ id (fun h => by cases h), .of_eq rfl rfl rfl, id,
      fun _ => id, rfl,
      rfl, rfl, rfl⟩
  | dequeue s =>
    unfold writeDequeue
    split <;>
      exact ⟨rfl, Peer.keeps_stream _ _ _ _ _ _ id id, .of_eq rfl rfl rfl, id,
        fun _ => id, rfl, rfl,
        rfl, rfl⟩
  | send s | arm s =>
    refine ⟨rfl, (Peer.Outside.refl _ _).toKeeps, .refl _, id, fun inbound hr => ?_, rfl, rfl, rfl,
      rfl⟩
    exact hr.update rfl fun tail hdata hcb hremoval => ⟨hdata, tail, hcb, hremoval⟩
  | requeue s rest =>
    exact ⟨rfl, Peer.keeps_stream _ _ _ _ _ _ id id, .of_eq rfl rfl rfl, id, fun _ => id, rfl, rfl,
      rfl, rfl⟩
  | fail s =>
    refine ⟨rfl, (Peer.wgTcpFailExactSocket_outside _ _ _).toKeeps,
      (Peer.wgTcpFailExactSocket_arms _ _ _).toQueues, ?_, fun _ => id, rfl, rfl, rfl, rfl⟩
    dsimp only [writeFail, setPeer_peer, Peer.wgTcpFailExactSocket]
    repeat' split
    all_goals first | exact id | exact fun _ => rfl
  | finish captured =>
    refine ⟨rfl, (Peer.finishWriter_outside _ _ _ _).toKeeps, ?_, ?_, fun _ => id, rfl, rfl, rfl,
      rfl⟩
    all_goals
      dsimp only [writeFinish, setPeer_peer, Peer.finishWriter]
      split
    · exact .of_eq rfl rfl rfl
    · exact .of_eq rfl rfl rfl
    · exact id
    · exact id

theorem Arming.setPeer {p : Peer} (ha : σ.peer.Aside σ.device p) (hq : σ.peer.Queues p) :
    σ.Arming (σ.setPeer p) :=
  ⟨rfl, ha.toKeeps, hq, ha.reconnect, fun _ => id, rfl, rfl, rfl, rfl⟩

theorem requestStep_arming {queueLimit : Nat} {r : Request}
    (h : σ.requestStep queueLimit r = some τ) : σ.Arming τ := by
  have keep : σ.Arming σ := .setPeer (.refl _ _) (.refl _)
  cases r with
  | enqueue frame =>
    cases h
    unfold enqueueStep
    split
    · rename_i p s hp hs
      obtain ⟨-, -, -, -, rfl⟩ := Peer.wgTcpEnqueueFrame_ok hp
      have hkeep := (Peer.keeps_stream σ.device σ.peer σ.peer.read σ.peer.write
        (σ.peer.sendQueue ++ [frame]) σ.peer.parser id id).trans
        (Peer.wgTcpScheduleWriteLocked_outside _ _).toKeeps
      refine ⟨rfl, hkeep, ?_, ?_, fun inbound hr => ?_, rfl, rfl, rfl, rfl⟩
      · rw [Peer.wgTcpScheduleWriteLocked_eq]
        exact .of_eq rfl rfl rfl
      · rw [Peer.wgTcpScheduleWriteLocked_eq]
        exact id
      · exact hr.update rfl fun tail hdata hcb hremoval => ⟨hdata, tail, hcb, hremoval⟩
    · exact keep
  | dial =>
    obtain ⟨-, ⟨⟩⟩ := Option.ite_none_left_eq_some.mp h
    exact .setPeer (Peer.requestDial_aside _ _) (Peer.requestDial_arms _ _).toQueues
  | reconnect =>
    obtain ⟨-, ⟨⟩⟩ := Option.ite_none_left_eq_some.mp h
    exact .setPeer (Peer.reconnect_aside _ _) (Peer.reconnect_arms _ _).toQueues
  | authenticated connectionId =>
    obtain ⟨htemp, ⟨⟩⟩ := Option.ite_none_left_eq_some.mp h
    exact .setPeer (Peer.requestPromotion_aside _ (by simpa using htemp) _)
      (Peer.requestPromotion_arms _ _).toQueues
  | setEndpoint ep configured =>
    obtain ⟨-, ⟨⟩⟩ := Option.ite_none_left_eq_some.mp h
    exact .setPeer (Peer.addressing_aside _ _ _ (setPeerEndpoint_set _ _ _ _ _ _))
      (.of_eq rfl rfl rfl)
  | learn ep connectionId =>
    obtain ⟨-, ⟨⟩⟩ := Option.ite_none_left_eq_some.mp h
    exact .setPeer (Peer.addressing_aside _ _ _ (learnDialTarget_set _ _ _)) (.of_eq rfl rfl rfl)
  | connect =>
    obtain ⟨-, ⟨⟩⟩ := Option.ite_none_left_eq_some.mp h
    exact ⟨rfl, (Peer.Outside.refl _ _).toKeeps, .refl _, id, fun _ => id, rfl, rfl, rfl, rfl⟩

/-- The steps of a callback, by what they do to the flags. -/
inductive CallbackEffect (σ : State) (s : SockId) : State → Prop where
  | arming {τ : State} (arming : σ.Arming τ) : CallbackEffect σ s τ
  | stateSection (inbound : Bool) (hook : (σ.socks s).userData = some inbound)
      (due : (σ.socks s).callback = some .stateEntered) :
      CallbackEffect σ s
        ((σ.setPeer (σ.peer.stateChangeSection s inbound (σ.socks s).skState).1).setSock s
          { σ.socks s with
            callback :=
              some (.stateTail (σ.peer.stateChangeSection s inbound (σ.socks s).skState).2) })
  | cancelRetry (inbound : Bool) (hook : (σ.socks s).userData = some inbound) (tail : StateTail)
      (due : (σ.socks s).callback = some (.stateTail tail)) (cancel : tail.cancelRetry = true) :
      CallbackEffect σ s ((σ.setPeer σ.peer.takeRetryWork).setSock s
        { σ.socks s with callback := some (.stateTail { tail with cancelRetry := false }) })
  | queueRemoval (inbound : Bool) (hook : (σ.socks s).userData = some inbound) (tail : StateTail)
      (due : (σ.socks s).callback = some (.stateTail tail)) (removal : tail.removal = true) :
      CallbackEffect σ s ((σ.setPeer (σ.peer.queueRemoval σ.device s inbound)).setSock s
        { σ.socks s with callback := none })

/-- A step of a callback that is not in its tail. -/
theorem Arming.callback {s : SockId} {sk : Sock} {p : Peer} (hk : σ.peer.Keeps σ.device p)
    (hq : σ.peer.Queues p)
    (hr : σ.peer.tcpReconnectRequested = true → p.tcpReconnectRequested = true)
    (hs : ∀ inbound tail, (σ.socks s).userData = some inbound →
      (σ.socks s).callback = some (.stateTail tail) → tail.removal = false) :
    σ.Arming ((σ.setPeer p).setSock s sk) := by
  refine ⟨rfl, hk, hq, hr, fun inbound hremoves => ?_, rfl, rfl, rfl, rfl⟩
  refine hremoves.update rfl fun tail hdata hcb hremoval => ?_
  simp [hs inbound tail hdata hcb] at hremoval

theorem CallbackMove.effect {s : SockId} (hm : σ.CallbackMove s τ) : σ.CallbackEffect s τ := by
  have keep := (Peer.Outside.refl σ.device σ.peer).toKeeps
  cases hm with
  | plain cb due free =>
    exact .arming (.callback keep (.refl _) id (by simp [free]))
  | plainWriteSpace cb due free =>
    exact .arming (.callback keep (.refl _) id (by simp [free]))
  | dataReady inbound hook due =>
    refine .arming (.callback (Peer.wgTcpDataReady_outside _ _).toKeeps
      (Peer.wgTcpDataReady_arms _ _).toQueues ?_ (by simp [due]))
    unfold Peer.wgTcpDataReady
    split <;> exact id
  | writeSpace inbound hook due =>
    refine .arming (.callback (Peer.wgTcpWriteSpace_outside _ _).toKeeps
      (Peer.wgTcpWriteSpace_arms _ _).toQueues ?_ (by simp [due]))
    unfold Peer.wgTcpWriteSpace
    rw [Peer.wgTcpScheduleWriteLocked_eq]
    split <;> exact id
  | writeSpaceTail inbound hook due | stateSkip inbound hook due | stateEnter inbound hook due =>
    exact .arming (.callback keep (.refl _) id (by simp [due]))
  | stateSection inbound hook due => exact .stateSection inbound hook due
  | tailRetry inbound hook tail due cancel => exact .cancelRetry inbound hook tail due cancel
  | tailBootstrap inbound hook tail due =>
    have ha := Peer.wgTcpQueueCarrierBootstrap_aside σ.device σ.peer s
    refine .arming ⟨rfl, ha.toKeeps, (Peer.wgTcpQueueCarrierBootstrap_arms _ s).toQueues,
      ha.reconnect, fun inbound hr => ?_, rfl, rfl, rfl, rfl⟩
    refine hr.update rfl fun tail' hdata hcb hremoval => ?_
    obtain rfl : tail = tail' := by simpa using due.symm.trans hcb
    exact ⟨hdata, _, rfl, hremoval⟩
  | tailRemoval inbound hook tail due removal => exact .queueRemoval inbound hook tail due removal
  | tailEnd inbound hook due =>
    refine .arming (.callback keep (.refl _) id ?_)
    intro inbound tail hdata hcb
    obtain rfl : StateTail.nothing = tail := by simpa using due.symm.trans hcb
    rfl

/-! ### Every step keeps the removals backed -/

theorem stateChangeSection_removal (p : Peer) (s : SockId) (inbound : Bool) (skState : TcpState)
    (b : Bool) :
    ((p.stateChangeSection s inbound skState).1.removalOf b).work = (p.removalOf b).work ∧
      (((p.stateChangeSection s inbound skState).1.removalOf b).scheduled = true →
        (p.removalOf b).scheduled = true ∨
          (b = inbound ∧ (p.stateChangeSection s inbound skState).2.removal = true)) := by
  unfold Peer.stateChangeSection Peer.stateEstablished Peer.wgTcpPublishOutboundEstablishedLocked
    Peer.stateClosedInbound Peer.stateClosedOutbound
  repeat' split
  all_goals cases b <;> simp_all [Peer.removalOf, Removal.mark, StateTail.nothing]

/-- The claim that a callback has to queue the work for is still exact, unless a connect is being
unwound. -/
theorem queueRemoval_work (hi : σ.Configured) {s : SockId}
    (hook : (σ.socks s).userData = some inbound) (hlive : σ.peer.live σ.device = true)
    (hs : (σ.peer.removalOf inbound).scheduled = true) :
    ((σ.peer.queueRemoval σ.device s inbound).removalOf inbound).work = true ∨
      σ.lock.any (Holder.restores inbound) = true := by
  obtain ⟨hlinks, hhooks⟩ := hi.control.custody.on_of_hook hook
  cases inbound with
  | false =>
    have hs : σ.peer.outboundRemove.scheduled = true := hs
    rcases hi.exact.outbound hs with heq | hsettles | ⟨hnone, -⟩
    · refine .inl ?_
      simp [Peer.queueRemoval, Peer.removalOf, hlive, hs, heq, hlinks, Links.on]
    · obtain ⟨k, hk, hsettles⟩ := (Option.any_eq_true _ _).mp hsettles
      have hok := (hi.control.holder k hk).1
      cases k with
      | connectSetup => simp [hok.2, Hooks.none, Hooks.on] at hhooks
      | unwind =>
        rw [hk]
        exact .inr rfl
      | _ => cases hsettles
    · simp [hlinks, Links.on] at hnone
  | true =>
    have hs : σ.peer.inboundRemove.scheduled = true := hs
    rcases hi.exact.inbound hs with heq | ⟨hnone, -⟩
    · refine .inl ?_
      simp [Peer.queueRemoval, Peer.removalOf, hlive, hs, heq, hlinks, Links.on]
    · simp [hlinks, Links.on] at hnone

theorem CallbackEffect.removalBacked {s : SockId} {b : Bool} (he : σ.CallbackEffect s τ)
    (hc : σ.Configured) (hi : σ.RemovalBacked b) : τ.RemovalBacked b := by
  cases he with
  | arming arming => exact arming.removalBacked hi
  | stateSection inbound hook due =>
    have hkeep := (Peer.stateChangeSection_outside σ.device σ.peer s inbound (σ.socks s).skState)
    obtain ⟨hwork, hnew⟩ := stateChangeSection_removal σ.peer s inbound (σ.socks s).skState b
    intro hlive hs
    rcases hnew hs with hs | ⟨rfl, hremoval⟩
    · rcases hi (hkeep.toKeeps.live hlive) hs with hw | hstarts | hl | hr
      · exact .inl (hwork.trans hw)
      · exact .inr (.inl hstarts)
      · exact .inr (.inr (.inl hl))
      · exact .inr (.inr (.inr (hr.update rfl (by simp [due]))))
    · exact .inr (.inr (.inr ⟨s, _, by simpa using hook, by simp, hremoval⟩))
  | cancelRetry inbound hook tail due cancel =>
    refine hi.step id ?_ id ?_ id
    · cases b <;> exact .refl _
    · intro hr
      refine hr.update rfl fun tail' hdata hcb hremoval => ?_
      obtain rfl : tail = tail' := by simpa using due.symm.trans hcb
      exact ⟨hdata, _, rfl, hremoval⟩
  | queueRemoval inbound hook tail due removal =>
    have hkeep := Peer.queueRemoval_outside σ.device σ.peer s inbound
    have harms := (Peer.queueRemoval_arms σ.device σ.peer s inbound).toQueues.removal b
    intro hlive hs
    replace hlive : σ.peer.live σ.device = true := hkeep.toKeeps.live hlive
    rcases harms.1 hs with hclaim | hw
    · by_cases hb : b = inbound
      · subst hb
        exact (queueRemoval_work hc hook hlive hclaim).imp_right fun hl => .inr (.inl hl)
      · rcases hi hlive hclaim with hw | hstarts | hl | hr
        · exact .inl (harms.2 hw)
        · exact .inr (.inl hstarts)
        · exact .inr (.inr (.inl hl))
        · refine .inr (.inr (.inr (hr.update rfl fun tail hdata => ?_)))
          exact absurd (Option.some.inj (hdata.symm.trans hook)) hb
    · exact .inl hw

/-- Behind the first step of a stop, the peer is not live. -/
theorem not_live_of_stop (hc : σ.Control) (hr : 0 < σ.stop.rank) :
    σ.peer.live σ.device = false := by
  simp [Peer.live, hc.stop.stopping hr]

/-- A thread that is in a connect is not on its way to a removal. -/
theorem RemovalBacked.setCaller {caller : Caller} {pc : DialPc} (hi : σ.RemovalBacked inbound)
    (hpc : σ.caller caller = some pc) (pc' : Option DialPc) :
    (σ.setCaller caller pc').RemovalBacked inbound := by
  refine hi.step (by simp) (by rw [setCaller_peer]; exact .refl _) (fun h => ?_) ?_ (by simp)
  · cases caller with
    | outbound =>
      cases inbound with
      | true => exact h
      | false =>
        have hstarts : σ.outbound.starts = true := h
        rw [caller_outbound_eq_some.mp hpc] at hstarts
        cases hstarts
    | retry | admin => cases inbound <;> exact h
  · simp [CallbackRemoves]

theorem RemovalBacked.hold (hi : σ.RemovalBacked inbound) (hfree : σ.lock = none) (k : Holder) :
    (σ.hold k).RemovalBacked inbound :=
  hi.step id (.refl _) id id (by simp [hfree])

theorem outboundPostStep_queues (σ : State) (post : OutboundPost) :
    σ.peer.Queues (σ.outboundPostStep post).peer := by
  unfold outboundPostStep
  split
  · exact .refl _
  split
  · exact (Peer.reconnect_arms _ _).toQueues
  split
  · exact .refl _
  split
  · exact (Peer.scheduleRetry_arms _).toQueues
  · exact .refl _

theorem outboundPostStep_frame (σ : State) (post : OutboundPost) :
    (σ.outboundPostStep post).inbound = σ.inbound ∧ (σ.outboundPostStep post).stop = σ.stop := by
  unfold outboundPostStep
  repeat' split
  all_goals exact ⟨rfl, rfl⟩

theorem outboundPostStep_removalBacked {post : OutboundPost} (hi : σ.RemovalBacked inbound)
    (hpc : σ.outbound = .post post) : (σ.outboundPostStep post).RemovalBacked inbound := by
  have ha := outboundPostStep_aside σ post
  refine hi.step ?_ ((outboundPostStep_queues σ post).removal inbound) (fun h => ?_) ?_ ?_
  · rw [ha.device]
    exact ha.peer.toKeeps.live
  · cases inbound with
    | true => exact (outboundPostStep_frame σ post).1.trans h
    | false =>
      have hstarts : σ.outbound.starts = true := h
      rw [hpc] at hstarts
      cases hstarts
  · unfold CallbackRemoves
    rw [ha.socks]
    exact id
  · rw [ha.lock]
    exact id

theorem ThreadStep.removalBacked {b : Bool} (ht : σ.ThreadStep τ) (hc : σ.Configured)
    (hi : σ.RemovalBacked b) : τ.RemovalBacked b := by
  have keep : (σ.peer.removalOf b).Arms (σ.peer.removalOf b) := .refl _
  have free {p : Holder → Bool} {Q : Prop} (hfree : σ.lock = none) (hl : σ.lock.any p = true) :
      Q := by
    simp [hfree] at hl
  cases ht with
  | retryBegin =>
    have ha := (Peer.takeRetryWork_aside σ.device σ.peer).trans (Peer.beginRetry_aside _ _)
    exact hi.step ha.toKeeps.live (Peer.beginRetry_removal _ _ b) id id id
  | dialRefused caller pc => exact hi.setCaller pc _
  | dialLock caller pc hfree => exact (hi.setCaller pc _).hold (by simpa using hfree) _
  | dialGreet caller s pc =>
    have ha := Arming.setPeer (Peer.wgTcpQueueCarrierBootstrap_aside σ.device σ.peer s)
      (Peer.wgTcpQueueCarrierBootstrap_arms _ s).toQueues
    exact (ha.removalBacked hi).setCaller pc _
  | dialGiveUp pc => exact hi.setCaller (show σ.caller .admin = _ from pc) _
  | dialAgain caller pc =>
    have ha := Arming.setPeer (Peer.scheduleRetry_aside σ.device σ.peer)
      (Peer.scheduleRetry_arms _).toQueues
    exact (ha.removalBacked hi).setCaller pc _
  | outboundTake idle work =>
    intro hlive hs
    cases b with
    | false => exact .inr (.inl rfl)
    | true => exact hi hlive hs
  | outboundCancel retryNeeded pc =>
    refine hi.step id (by cases b <;> exact .refl _) ?_ id id
    cases b with
    | false => exact fun _ => rfl
    | true => exact id
  | outboundLock retryNeeded pc hfree =>
    intro hlive hs
    cases b with
    | false => exact .inr (.inr (.inl rfl))
    | true => exact (hi hlive hs).imp_right (.imp_right (.imp_left (free hfree)))
  | outboundPost post pc => exact outboundPostStep_removalBacked hi pc
  | inboundDead idle work temp => simp [hc.tempPeer] at temp
  | inboundTake idle work =>
    intro hlive hs
    cases b with
    | false => exact hi hlive hs
    | true => exact .inr (.inl rfl)
  | inboundLock pc hfree =>
    intro hlive hs
    cases b with
    | false => exact (hi hlive hs).imp_right (.imp_right (.imp_left (free hfree)))
    | true => exact .inr (.inr (.inl rfl))
  | bootstrapLock pc hfree | promotionLock s connectionId pc hfree =>
    exact hi.step id keep id id (free hfree)
  | promotionClaim connectionId s =>
    refine hi.step id keep id (fun hr => ?_) id
    exact hr.update rfl fun tail hdata hcb hremoval => ⟨hdata, tail, hcb, hremoval⟩
  | stopBegin =>
    rw [hc.tempPeer]
    intro hlive
    simp [Peer.live, Peer.stopClaim] at hlive
  | stopRetry pc | stopOutbound pc | stopInbound pc | stopBootstrap pc | stopPromotion pc
  | stopLock pc | stopFinish pc =>
    intro hlive
    have := not_live_of_stop hc.control (by simp [pc, StopPc.rank])
    exact absurd (this.symm.trans hlive) (by simp)
  | bootstrapTake | promotionStart | promotionTake | promotionSkip =>
    exact hi.step id (by cases b <;> exact .refl _) id id id

/-- A connect that is being unwound queues the removal work that it leaves a claim for. -/
def Requeues (σ : State) : Prop :=
  ∀ caller, σ.lock = some (.unwindQueue caller) → σ.peer.tcpStopping = false →
    σ.peer.outboundRemove.scheduled = true →
    σ.peer.tcpReconnectRequested = true ∨ σ.peer.outboundRemove.work = true ∨
      σ.outbound.starts = true

/-- The holder goes on, and what it restores is restored or still up to it. -/
theorem RemovalBacked.goes {b : Bool} (hi : σ.RemovalBacked b) (hl : σ.lock = some h)
    (hlive : τ.peer.live τ.device = true → σ.peer.live σ.device = true)
    (hr : (σ.peer.removalOf b).Arms (τ.peer.removalOf b))
    (hstarts : σ.RemovalStarts b → τ.RemovalStarts b)
    (hcallback : σ.CallbackRemoves b → τ.CallbackRemoves b)
    (hrestores : h.restores b = true → τ.lock.any (Holder.restores b) = true) :
    τ.RemovalBacked b :=
  hi.step hlive hr hstarts hcallback (by rw [hl]; exact hrestores)

theorem LockedMove.removalBacked {b : Bool} (hm : σ.LockedMove h τ) (hl : σ.lock = some h)
    (hc : σ.Configured) (hq : σ.Requeues) (hi : σ.RemovalBacked b) : τ.RemovalBacked b := by
  obtain ⟨hok, hin⟩ := hc.control.holder h hl
  have keep := Removal.Arms.refl (σ.peer.removalOf b)
  have calm {s : SockId} (hcb : (σ.socks s).callbackRunning = false) (sk : Sock)
      (hr : σ.CallbackRemoves b) : (σ.setSock s sk).CallbackRemoves b := by
    refine hr.update rfl fun tail hdata hcb' => ?_
    simp [Sock.callbackRunning, hcb', Callback.running] at hcb
  have stopping (hstop : σ.stop = .inside) {Q : Prop} (hlive : σ.peer.live σ.device = true) :
      Q := by
    have := not_live_of_stop hc.control (by simp [hstop, StopPc.rank])
    exact absurd (this.symm.trans hlive) (by simp)
  cases hm with
  | pass passes =>
    refine hi.goes hl id keep id id ?_
    cases passes <;> first | exact id | (intro h; cases h)
  | dial | promoteCheck | promoteUnlock | bootstrapUnlock | stopUnlock =>
    exact hi.goes hl id (by cases b <;> exact .refl _) id id (fun h => by cases h)
  | create caller s | connectPublish caller s =>
    refine hi.goes hl id (by cases b <;> exact .refl _) id (fun hr => ?_) (fun h => by cases h)
    exact hr.update rfl fun tail hdata hcb hremoval => ⟨hdata, tail, hcb, hremoval⟩
  | setup setsUp live free callback =>
    refine hi.goes hl id (by cases b <;> exact .refl _) id (calm callback _) ?_
    cases setsUp <;> intro h <;> cases h
  | start caller s callback =>
    exact hi.goes hl id keep id (calm (by simp [Sock.callbackRunning, callback]) _)
      (fun h => by cases h)
  | connectFinish caller s first p finish =>
    have hlive (h : p.live σ.device = true) : σ.peer.live σ.device = true := by
      obtain ⟨-, -, conn, -, rfl⟩ := Peer.connectFinish_some hok.1 finish
      exact h
    exact hi.goes hl hlive ((Peer.connectFinish_arms hok.1 finish).toQueues.removal b) id id
      (fun h => by cases h)
  | unwindClaim caller s links =>
    cases b with
    | false => exact fun _ _ => .inr (.inr (.inl rfl))
    | true => exact hi.goes hl id (.refl _) id id (fun h => by cases h)
  | unwindFinish caller =>
    cases b with
    | false =>
      intro hlive hs
      have hstop : σ.peer.tcpStopping = false := by
        have : σ.peer.live σ.device = true := hlive
        simp_all [Peer.live]
      have hagain : (σ.peer.unwindFinish σ.device).1 = true := by
        simpa [Peer.removalOf, Peer.unwindFinish, hstop] using hs
      rw [if_pos hagain]
      exact .inr (.inr (.inl rfl))
    | true => exact hi.goes hl id (.refl _) id id (fun h => by cases h)
  | unwindQueue caller =>
    rw [Peer.unwindQueue_eq]
    cases b with
    | false =>
      intro hlive hs
      have hlive : σ.peer.live σ.device = true := hlive
      have hs : σ.peer.outboundRemove.scheduled = true := hs
      have hstop : σ.peer.tcpStopping = false := by simp_all [Peer.live]
      rcases hq caller hl hstop hs with hreconnect | hw | hstarts
      · exact .inl (by simp [Peer.removalOf, hstop, hs, hreconnect])
      · exact .inl (by simp [Peer.removalOf, hw])
      · exact .inr (.inl hstarts)
    | true => exact hi.goes hl id (.refl _) id id (fun h => by cases h)
  | connectReturn caller failed greet pc =>
    exact (hi.setCaller hin pc).step id (.refl _) id id (by simp [hl, Holder.restores])
  | outboundClean retryNeeded s links =>
    exact hi.goes hl id (by cases b <;> exact .refl _) id id id
  | outboundStale retryNeeded reclaim =>
    exact hi.goes hl id (by cases b <;> exact .refl _) id id id
  | outboundFinish retryNeeded reclaim =>
    cases b with
    | false => exact fun _ => (fun h => by cases h)
    | true => exact hi.goes hl id (.refl _) id id (fun h => by cases h)
  | outboundUnlock post =>
    refine hi.goes hl id keep (fun h => ?_) id (fun h => by cases h)
    cases b with
    | true => exact h
    | false =>
      have hstarts : σ.outbound.starts = true := h
      rw [show σ.outbound = .inside from hin] at hstarts
      cases hstarts
  | inboundFinish =>
    cases b with
    | false => exact hi.goes hl id (.refl _) id id (fun h => by cases h)
    | true => exact fun _ => (fun h => by cases h)
  | inboundUnlock =>
    refine hi.goes hl id keep (fun h => ?_) id (fun h => by cases h)
    cases b with
    | false => exact h
    | true => exact absurd ((show σ.inbound = .inside from hin).symm.trans h) (fun h => by cases h)
  | rearm rearms =>
    refine hi.goes hl (Peer.rearm_outside _ _ _).toKeeps.live
      ((Peer.rearm_arms _ _ _).toQueues.removal b) id id ?_
    cases rearms <;> intro h <;> cases h
  | promoteFree s links =>
    intro hlive hs
    cases b <;> simp [Peer.removalOf, Peer.promoteClaim, links, Links.none] at hs
  | promoteClaim s t inbound links => exact fun _ _ => .inr (.inr (.inl rfl))
  | promotePublish s => cases b <;> exact fun _ => (fun h => by cases h)
  | bootstrapTake k next =>
    exact hi.goes hl id (by cases b <;> exact .refl _) id id (fun h => by cases h)
  | stopReclaim => exact fun hlive => stopping hin hlive
  | stopPurgeNone => exact fun hlive => stopping hin hlive
  | stopPurge => exact fun hlive => stopping hin hlive
  | cancelRead plan | cancelWrite plan =>
    exact hi.goes hl id (by cases b <;> exact .refl _) id id id
  | clearFlags plan =>
    have hclear : (σ.peer.removalOf b).Arms ((plan.clear σ.peer).removalOf b) := by
      cases plan <;> cases b <;> exact .refl _
    have hlive (h : (plan.clear σ.peer).live σ.device = true) : σ.peer.live σ.device = true := by
      cases plan <;> exact h
    refine hi.goes hl hlive hclear id id ?_
    cases plan with
    | promote new i o => cases i <;> cases o <;> exact fun _ => rfl
    | detach => exact id
    | _ =>
      intro h
      cases h
  | reset s owner callback =>
    exact hi.goes hl id (by cases b <;> exact .refl _) id (calm callback _) id
  | release s owner => exact hi.goes hl id (by cases b <;> exact .refl _) id id id
  | purge s owner => exact hi.goes hl id (by cases b <;> exact .refl _) id id id
  | shutdown s owner =>
    refine hi.goes hl id keep id (fun hr => ?_) ?_
    · exact hr.update rfl fun tail hdata hcb hremoval => ⟨hdata, tail, hcb, hremoval⟩
    · cases owner with
      | promoteInbound new old =>
        obtain ⟨-, rfl, -⟩ := hok
        exact fun _ => rfl
      | stopOutbound other | stopInbound | rollback | destroy =>
        intro h
        cases h
      | promoteOutbound => exact fun _ => rfl
      | unwind | outbound | inbound => exact id
  | installData | installFinish | installFail | handoverNothing | handoverClaim | handoverReset
  | handoverDetach => simp [Inside, Holder.thread, hc.tempPeer] at hin
  | destroyed => exact absurd (hc.tempPeer.symm.trans hok.2) (by simp)

/-! ### The claims of an unwinding -/

theorem Requeues.step (hq : σ.Requeues) (hlock : τ.lock = σ.lock)
    (hstop : τ.peer.tcpStopping = false → σ.peer.tcpStopping = false)
    (hreconnect : σ.peer.tcpReconnectRequested = true → τ.peer.tcpReconnectRequested = true)
    (hclaim : τ.peer.outboundRemove.scheduled = true → σ.peer.outboundRemove.scheduled = true ∨
      τ.peer.tcpReconnectRequested = true ∨ τ.peer.outboundRemove.work = true)
    (hwork : σ.peer.outboundRemove.work = true →
      τ.peer.outboundRemove.work = true ∨ τ.outbound.starts = true)
    (hstarts : σ.outbound.starts = true → τ.outbound.starts = true) : τ.Requeues := by
  intro caller hl hs hclaimed
  rcases hclaim hclaimed with h | h | h
  · rcases hq caller (hlock ▸ hl) (hstop hs) h with h | h | h
    · exact .inl (hreconnect h)
    · exact .inr (hwork h)
    · exact .inr (.inr (hstarts h))
  · exact .inl h
  · exact .inr (.inl h)

theorem Arming.requeues (ha : σ.Arming τ) (hq : σ.Requeues) : τ.Requeues :=
  hq.step ha.lock (by rw [ha.keeps.tcpStopping]; exact id) ha.reconnect
    (fun h => (ha.queues.outbound.1 h).imp_right .inr) (fun h => .inl (ha.queues.outbound.2 h))
    (by rw [ha.outbound]; exact id)

theorem stateChangeSection_reconnect (p : Peer) (s : SockId) (inbound : Bool)
    (skState : TcpState) :
    (p.tcpReconnectRequested = true →
      (p.stateChangeSection s inbound skState).1.tcpReconnectRequested = true) ∧
    ((p.stateChangeSection s inbound skState).1.outboundRemove.scheduled = true →
      p.outboundRemove.scheduled = true ∨
        (p.stateChangeSection s inbound skState).1.tcpReconnectRequested = true) := by
  unfold Peer.stateChangeSection Peer.stateEstablished Peer.wgTcpPublishOutboundEstablishedLocked
    Peer.stateClosedInbound Peer.stateClosedOutbound
  repeat' split
  all_goals simp_all

theorem CallbackEffect.requeues {s : SockId} (he : σ.CallbackEffect s τ) (hq : σ.Requeues) :
    τ.Requeues := by
  cases he with
  | arming arming => exact arming.requeues hq
  | stateSection inbound =>
    have hkeep := Peer.stateChangeSection_outside σ.device σ.peer s inbound (σ.socks s).skState
    obtain ⟨hwork, -⟩ := stateChangeSection_removal σ.peer s inbound (σ.socks s).skState false
    obtain ⟨hreconnect, hclaim⟩ := stateChangeSection_reconnect σ.peer s inbound (σ.socks s).skState
    refine hq.step rfl ?_ hreconnect (fun h => (hclaim h).imp_right .inl)
      (fun h => .inl (hwork.trans h)) id
    exact fun h => hkeep.tcpStopping.symm.trans h
  | cancelRetry => exact hq.step rfl id id .inl .inl id
  | queueRemoval inbound =>
    have ha := Peer.queueRemoval_aside σ.device σ.peer s inbound
    have hqueues := (Peer.queueRemoval_arms σ.device σ.peer s inbound).toQueues
    refine hq.step rfl ?_ ha.reconnect (fun h => (hqueues.outbound.1 h).imp_right .inr)
      (fun h => .inl (hqueues.outbound.2 h)) id
    exact fun h => ha.tcpStopping.symm.trans h

theorem Requeues.setCaller {caller : Caller} {pc : DialPc} (hq : σ.Requeues)
    (hpc : σ.caller caller = some pc) (pc' : Option DialPc) :
        (σ.setCaller caller pc').Requeues := by
  refine hq.step (by simp) (by simp) (by simp) (fun h => .inl (by simpa using h))
    (fun h => .inl (by simpa using h)) ?_
  cases caller with
  | outbound =>
    intro hstarts
    rw [caller_outbound_eq_some.mp hpc] at hstarts
    cases hstarts
  | retry | admin => exact id

theorem ThreadStep.requeues (ht : σ.ThreadStep τ) (hc : σ.Configured) (hq : σ.Requeues) :
    τ.Requeues := by
  have stopping (hr : 0 < σ.stop.rank) (h : τ.peer.tcpStopping = σ.peer.tcpStopping) :
      τ.Requeues := by
    intro caller hl hs
    exact absurd (h.symm.trans hs) (by simp [hc.control.stop.stopping hr])
  cases ht with
  | retryBegin =>
    have ha := (Peer.takeRetryWork_aside σ.device σ.peer).trans (Peer.beginRetry_aside _ _)
    have harms := Peer.beginRetry_removal σ.device σ.peer false
    exact hq.step rfl (fun h => ha.tcpStopping.symm.trans h) ha.reconnect
      (fun h => (harms.1 h).imp_right .inr) (fun h => .inl (harms.2 h)) id
  | dialRefused caller pc => exact hq.setCaller pc _
  | dialGreet caller s pc =>
    have ha := Arming.setPeer (Peer.wgTcpQueueCarrierBootstrap_aside σ.device σ.peer s)
      (Peer.wgTcpQueueCarrierBootstrap_arms _ s).toQueues
    exact (ha.requeues hq).setCaller pc _
  | dialGiveUp pc => exact hq.setCaller (show σ.caller .admin = _ from pc) _
  | dialAgain caller pc =>
    have ha := Arming.setPeer (Peer.scheduleRetry_aside σ.device σ.peer)
      (Peer.scheduleRetry_arms _).toQueues
    exact (ha.requeues hq).setCaller pc _
  | outboundTake => exact hq.step rfl id id .inl (fun _ => .inr rfl) fun _ => rfl
  | outboundCancel => exact hq.step rfl id id .inl .inl fun _ => rfl
  | outboundPost post pc =>
    have ha := outboundPostStep_aside σ post
    have hqueues := (outboundPostStep_queues σ post).outbound
    refine hq.step ha.lock (fun h => ha.peer.tcpStopping.symm.trans h) ha.peer.reconnect
      (fun h => (hqueues.1 h).imp_right .inr) (fun h => .inl (hqueues.2 h)) ?_
    rw [pc]
    intro h
    cases h
  | inboundDead | inboundTake | bootstrapTake | promotionStart | promotionTake | promotionSkip
  | promotionClaim => exact hq.step rfl id id .inl .inl id
  | dialLock | outboundLock | inboundLock | bootstrapLock | promotionLock =>
    intro _ h
    cases h
  | stopBegin =>
    rw [hc.tempPeer]
    intro _ _ h
    cases h
  | stopLock pc =>
    rw [hc.tempPeer]
    intro _ h
    cases h
  | stopRetry pc | stopOutbound pc | stopInbound pc | stopBootstrap pc | stopPromotion pc
  | stopFinish pc => exact stopping (by simp [pc, StopPc.rank]) rfl

theorem LockedMove.requeues (hm : σ.LockedMove h τ) (hok : h.Ok σ) : τ.Requeues := by
  cases hm with
  | unwindFinish caller =>
    intro caller' hl hs hclaim
    refine .inl ?_
    by_contra hr
    have hagain : (σ.peer.unwindFinish σ.device).1 = false := by
      have : σ.peer.tcpReconnectRequested = false := Bool.eq_false_of_not_eq_true hr
      simp [Peer.unwindFinish, this]
    simp [hagain] at hl
  | pass passes => cases passes <;> intro _ h <;> cases h
  | setup setsUp => cases setsUp <;> intro _ h <;> cases h
  | rearm rearms => cases rearms <;> intro _ h <;> cases h
  | bootstrapTake k next => rcases next with rfl | ⟨s, rfl⟩ <;> intro _ h <;> cases h
  | clearFlags plan =>
    cases plan with
    | promote new i o => cases i <;> cases o <;> intro _ h <;> cases h
    | destroy s => cases s <;> intro _ h <;> cases h
    | _ =>
      intro _ h
      cases h
  | shutdown s owner =>
    cases owner with
    | promoteInbound new old =>
      obtain ⟨-, rfl, -⟩ := hok
      intro _ h
      cases h
    | stopOutbound other =>
      obtain ⟨-, rfl⟩ := hok
      intro _ h
      cases h
    | _ =>
      intro _ h
      cases h
  | _ =>
    intro _ h
    cases h

end State

/-! ## What a stop clears -/

/-- The stop has cleared the retry flag. -/
def Owner.stopCleared : Owner → Bool
  | .stopOutbound _ | .stopInbound _ => true
  | _ => false

def Plan.stopCleared : Plan → Bool
  | .detach _ owner => owner.stopCleared
  | _ => false

def Holder.stopCleared : Holder → Bool
  | .stopPurge _ _ | .stopUnlock _ => true
  | .drain _ plan _ | .cancelRead plan | .cancelWrite plan | .clearFlags plan => plan.stopCleared
  | .reset _ owner | .release _ owner | .purge _ owner | .shutdown _ owner => owner.stopCleared
  | _ => false

namespace State

variable {σ τ : State} {h k : Holder}

/-- The retry flag of a stopped peer is cleared, and in the end its outbound claim. -/
structure StopCleared (σ : State) : Prop where
  retry : 6 < σ.stop.rank ∨ σ.lock.any Holder.stopCleared = true → σ.peer.retry.scheduled = false
  outbound : σ.stop = .done → σ.peer.outboundRemove.scheduled = false

theorem stopCleared_init (tempPeer : Bool) (addressing : Addressing) :
    (State.init tempPeer addressing).StopCleared :=
  ⟨fun _ => rfl, fun h => (by cases h)⟩

theorem stop_inside (hc : σ.Control) (hl : σ.lock.any Holder.stopCleared = true) :
    σ.stop = .inside := by
  obtain ⟨k, hk, hcleared⟩ := (Option.any_eq_true _ _).mp hl
  have hin := (hc.holder k hk).2
  cases k with
  | stopPurge | stopUnlock => exact hin
  | reset s owner | release s owner | purge s owner | shutdown s owner =>
    cases owner <;> first | exact hin | cases hcleared
  | drain _ plan | cancelRead plan | cancelWrite plan | clearFlags plan =>
    cases plan with
    | detach s owner => cases owner <;> first | exact hin | cases hcleared
    | _ => cases hcleared
  | _ => cases hcleared

theorem stopping_of_cleared (hc : σ.Control)
    (h : 6 < σ.stop.rank ∨ σ.lock.any Holder.stopCleared = true) : σ.peer.tcpStopping = true := by
  rcases h with h | h
  · exact hc.stop.stopping (by omega)
  · exact hc.stop.stopping (by simp [stop_inside hc h, StopPc.rank])

theorem StopCleared.step (hi : σ.StopCleared) (hc : σ.Control)
    (hretry : σ.peer.tcpStopping = true → τ.peer.retry.scheduled = true →
      σ.peer.retry.scheduled = true)
    (houtbound : σ.stop = .done → τ.peer.outboundRemove.scheduled = true →
      σ.peer.outboundRemove.scheduled = true)
    (hrank : 6 < τ.stop.rank ∨ τ.lock.any Holder.stopCleared = true →
      6 < σ.stop.rank ∨ σ.lock.any Holder.stopCleared = true)
    (hdone : τ.stop = .done → σ.stop = .done) : τ.StopCleared where
  retry := fun h =>
    eq_false_of_imp (hretry (stopping_of_cleared hc (hrank h))) (hi.retry (hrank h))
  outbound := fun h => eq_false_of_imp (houtbound (hdone h)) (hi.outbound (hdone h))

theorem stopping_of_done (hc : σ.Control) (h : σ.stop = .done) : σ.peer.tcpStopping = true :=
  hc.stop.stopping (by simp [h, StopPc.rank])

/-- Once a stop has begun, sections only queue what is scheduled. -/
theorem StopCleared.queues (hi : σ.StopCleared) (hc : σ.Control) (hq : σ.peer.Queues τ.peer)
    (hlock : τ.lock = σ.lock) (hstop : τ.stop = σ.stop) : τ.StopCleared :=
  hi.step hc (fun h => (hq.stopped h).1) (fun h => (hq.stopped (stopping_of_done hc h)).2)
    (by rw [hlock, hstop]; exact id) (by rw [hstop]; exact id)

theorem stateChangeSection_retry (p : Peer) (s : SockId) (inbound : Bool) (skState : TcpState) :
    (p.stateChangeSection s inbound skState).1.retry.work = p.retry.work ∧
      ((p.stateChangeSection s inbound skState).1.retry.scheduled = true →
        p.retry.scheduled = true) := by
  unfold Peer.stateChangeSection Peer.stateEstablished Peer.wgTcpPublishOutboundEstablishedLocked
    Peer.stateClosedInbound Peer.stateClosedOutbound
  repeat' split
  all_goals simp_all

theorem CallbackEffect.stopCleared {s : SockId} (he : σ.CallbackEffect s τ) (hc : σ.Configured)
    (hi : σ.StopCleared) : τ.StopCleared := by
  cases he with
  | arming arming => exact hi.queues hc.control arming.queues arming.lock arming.stop
  | stateSection inbound hook =>
    refine hi.step hc.control (fun _ => (stateChangeSection_retry _ _ _ _).2) (fun hd => ?_) id id
    -- A stopped peer has no socket whose callbacks could claim anything.
    have hlinks := (hc.control.stop.stopped hc.tempPeer (by simp [hd, StopPc.rank])).1
    have := (hc.control.custody.on_of_hook hook).1
    rw [hlinks] at this
    cases inbound <;> cases this
  | cancelRetry => exact hi.step hc.control (fun _ => id) (fun _ => id) id id
  | queueRemoval inbound =>
    exact hi.queues hc.control (Peer.queueRemoval_arms _ _ _ _).toQueues rfl rfl

theorem ThreadStep.stopCleared (ht : σ.ThreadStep τ) (hc : σ.Configured) (hi : σ.StopCleared) :
    τ.StopCleared := by
  have hcontrol := hc.control
  have keep : σ.peer.Queues σ.peer := .refl _
  have free {p : Holder → Bool} {Q : Prop} (hfree : σ.lock = none) (hl : σ.lock.any p = true) :
      Q := by
    simp [hfree] at hl
  cases ht with
  | retryBegin idle work =>
    refine hi.step hcontrol ?_ (fun hd => ?_) id id
    · intro _ hs
      have := congrArg WorkItem.scheduled (Peer.beginRetry_retry σ.device σ.peer)
      exact absurd (this.symm.trans hs) (by simp [WorkItem.idle])
    · have := (hcontrol.stop.retry (by simp [hd, StopPc.rank])).2
      simp [work] at this
  | dialRefused caller pc => exact hi.queues hcontrol (by simpa using keep) (by simp) (by simp)
  | dialGreet caller s pc =>
    exact hi.queues hcontrol (by simpa using (Peer.wgTcpQueueCarrierBootstrap_arms _ s).toQueues)
      (by simp) (by simp)
  | dialGiveUp pc => exact hi.queues hcontrol keep rfl rfl
  | dialAgain caller pc =>
    exact hi.queues hcontrol (by simpa using (Peer.scheduleRetry_arms _).toQueues) (by simp)
      (by simp)
  | outboundTake | outboundCancel | inboundDead | inboundTake =>
    exact hi.step hcontrol (fun _ => id) (fun _ => id) id id
  | outboundPost post pc =>
    have ha := outboundPostStep_aside σ post
    exact hi.queues hcontrol (outboundPostStep_queues σ post) ha.lock
      (outboundPostStep_frame σ post).2
  | bootstrapTake | promotionStart | promotionTake | promotionSkip | promotionClaim =>
    exact hi.queues hcontrol (.of_eq rfl rfl rfl) rfl rfl
  | dialLock caller =>
    refine hi.step hcontrol (by simp) (by simp) ?_ (by simp)
    exact fun h => h.imp (by simp) (fun h => by cases h)
  | outboundLock | inboundLock | bootstrapLock | promotionLock =>
    exact hi.step hcontrol (fun _ => id) (fun _ => id) (fun h => h.imp id (fun h => by cases h)) id
  | stopBegin pc =>
    refine ⟨fun h => ?_, (fun h => by cases h)⟩
    rcases h with h | h
    · simp [StopPc.rank] at h
    · simp [stop_inside hcontrol h] at pc
  | stopLock pc =>
    rw [hc.tempPeer]
    exact ⟨fun h => h.elim (by simp [StopPc.rank]) (fun h => by cases h), (fun h => by cases h)⟩
  | stopRetry pc | stopOutbound pc | stopBootstrap pc | stopPromotion pc =>
    exact hi.step hcontrol (fun _ => id) (fun _ => id) (fun h => h.imp (by simp [StopPc.rank]) id)
      (fun h => by cases h)
  | stopInbound pc =>
    rw [hc.tempPeer]
    exact hi.step hcontrol (fun _ => id) (fun _ => id) (fun h => h.imp (by simp [StopPc.rank]) id)
      (fun h => by cases h)
  | stopFinish pc =>
    exact ⟨fun _ => hi.retry (.inl (by simp [pc, StopPc.rank])), fun _ => rfl⟩

/-- Where a stop is through, nobody but a refused connect is under the lock. -/
theorem passing_of_done (hc : σ.Configured) (hl : σ.lock = some h) (hd : σ.stop = .done) :
    h.passing = true :=
  (hc.control.stop.stopped hc.tempPeer (by simp [hd, StopPc.rank])).2 h hl

/-- The holder goes on while a stop is at most under way. -/
theorem StopCleared.goes (hi : σ.StopCleared) (hc : σ.Configured) (hl : σ.lock = some h)
    (hretry : σ.peer.tcpStopping = true → τ.peer.retry.scheduled = true →
      σ.peer.retry.scheduled = true)
    (houtbound : h.passing = true → τ.peer.outboundRemove.scheduled = true →
      σ.peer.outboundRemove.scheduled = true)
    (hstop : τ.stop = σ.stop) (hcleared : τ.lock.any Holder.stopCleared = true →
      h.stopCleared = true) : τ.StopCleared :=
  hi.step hc.control hretry (fun hd => houtbound (passing_of_done hc hl hd))
    (by rw [hstop, hl]; exact fun h => h.imp_right hcleared) (by rw [hstop]; exact id)

theorem LockedMove.stopCleared (hm : σ.LockedMove h τ) (hl : σ.lock = some h) (hc : σ.Configured)
    (hi : σ.StopCleared) : τ.StopCleared := by
  obtain ⟨hok, hin⟩ := hc.control.holder h hl
  cases hm with
  | pass passes =>
    refine hi.goes hc hl (fun _ => id) (fun _ => id) rfl ?_
    cases passes <;> exact id
  | setup setsUp =>
    refine hi.goes hc hl (fun _ => id) (fun _ => id) rfl ?_
    cases setsUp <;> intro h <;> cases h
  | connectFinish caller s first p finish =>
    have hq := (Peer.connectFinish_arms hok.1 finish).toQueues
    exact hi.goes hc hl (fun h => (hq.stopped h).1) (fun h => by cases h) rfl (fun h => by cases h)
  | unwindFinish caller =>
    refine hi.goes hc hl (fun _ => id) (fun h => by cases h) rfl ?_
    split <;> intro h <;> cases h
  | unwindQueue caller =>
    rw [Peer.unwindQueue_eq]
    exact hi.goes hc hl (fun _ => id) (fun h => by cases h) rfl (fun h => by cases h)
  | connectReturn caller =>
    exact hi.goes hc hl (by simp) (by simp) (by simp) (fun h => by cases h)
  | rearm rearms =>
    have hq := (Peer.rearm_arms σ.device σ.peer σ.activeQueue).toQueues
    refine hi.goes hc hl (fun h => (hq.stopped h).1) ?_ rfl ?_
    all_goals cases rearms <;> intro h <;> cases h
  | bootstrapTake k next =>
    refine hi.goes hc hl (fun _ => id) (fun h => by cases h) rfl ?_
    rcases next with rfl | ⟨s, rfl⟩ <;> intro h <;> cases h
  | stopUnlock =>
    exact ⟨fun _ => hi.retry (.inr (by rw [hl]; rfl)), (fun h => by cases h)⟩
  | clearFlags plan =>
    cases plan with
    | stop outbound inbound =>
      have hstop : σ.stop = .inside := hin
      exact ⟨fun _ => rfl, fun hd => absurd (hstop.symm.trans hd) (by simp)⟩
    | promote new i o =>
      refine hi.goes hc hl (fun _ => id) (fun h => by cases h) rfl ?_
      cases i <;> cases o <;> intro h <;> cases h
    | detach s owner => exact hi.goes hc hl (fun _ => id) (fun h => by cases h) rfl id
    | destroy s => exact absurd (hc.tempPeer.symm.trans hok.1.2) (by simp)
    | handover s => exact absurd (hc.tempPeer.symm.trans hin) (by simp)
  | release s owner =>
    exact hi.goes hc hl (fun _ => (fun h => by cases h)) (fun h => by cases h) rfl id
  | reset | purge | cancelRead | cancelWrite =>
    exact hi.goes hc hl (fun _ => id) (fun h => by cases h) rfl id
  | shutdown s owner =>
    refine hi.goes hc hl (fun _ => id) (fun h => by cases h) rfl ?_
    cases owner with
    | promoteInbound new old =>
      obtain ⟨-, rfl, -⟩ := hok
      intro h
      cases h
    | stopOutbound | stopInbound => exact fun _ => rfl
    | _ =>
      intro h
      cases h
  | stopPurge | stopPurgeNone =>
    exact hi.goes hc hl (fun _ => id) (fun h => by cases h) rfl fun _ => rfl
  | outboundClean | outboundStale =>
    exact hi.goes hc hl (fun _ => (fun h => by cases h)) (fun h => by cases h) rfl
      (fun h => by cases h)
  | installData | installFinish | installFail | handoverNothing | handoverClaim | handoverReset
  | handoverDetach => simp [Inside, Holder.thread, hc.tempPeer] at hin
  | destroyed => exact absurd (hc.tempPeer.symm.trans hok.2) (by simp)
  | dial => exact hi.goes hc hl (fun _ => id) (fun _ => id) rfl (fun h => by cases h)
  | _ => exact hi.goes hc hl (fun _ => id) (fun h => by cases h) rfl (fun h => by cases h)

/-! ## Every step -/

structure Backed (σ : State) : Prop where
  removal : ∀ inbound, σ.RemovalBacked inbound
  requeues : σ.Requeues
  cleared : σ.StopCleared

theorem backed_init (tempPeer : Bool) (addressing : Addressing) :
    (State.init tempPeer addressing).Backed where
  removal := fun inbound _ hs => (by cases inbound <;> cases hs)
  requeues := fun _ hl => (by cases hl)
  cleared := stopCleared_init tempPeer addressing

theorem Backed.arming (hi : σ.Backed) (hc : σ.Control) (ha : σ.Arming τ) : τ.Backed :=
  ⟨fun _ => ha.removalBacked (hi.removal _), ha.requeues hi.requeues,
    hi.cleared.queues hc ha.queues ha.lock ha.stop⟩

theorem lifecycleStep_backed {l : Lifecycle} (hc : σ.Configured) (hi : σ.Backed)
    (h : σ.lifecycleStep l = some τ) : τ.Backed := by
  cases lifecycleStep_cases hc.control h with
  | deviceDown =>
    refine ⟨fun inbound hlive => ?_, ?_, ?_⟩
    · simp [Peer.live] at hlive
    · exact hi.requeues.step rfl id id .inl .inl id
    · exact hi.cleared.step hc.control (fun _ => id) (fun _ => id) id id
  | deviceUp done temp links =>
    have hout := hi.cleared.outbound done
    have hin := hc.exact.done done
    have hpass {k : Holder} (hk : σ.lock = some k) := passing_of_done hc hk done
    rw [Peer.wgOpen, if_neg (by simp [hc.control.custody.quarantined])]
    refine ⟨?_, ?_, ?_, (fun h => by cases h)⟩
    · intro inbound _ hs
      cases inbound with
      | false => exact absurd (hout.symm.trans hs) (by simp)
      | true => exact absurd (hin.symm.trans hs) (by simp)
    · intro caller hk
      exact absurd (hpass hk) (by simp [Holder.passing])
    · rintro (hrank | hl)
      · simp [StopPc.rank] at hrank
      · simp [stop_inside hc.control hl] at done
  | removePeer links =>
    exact ⟨fun inbound hlive => (by simp [Peer.live, Peer.peerMakeDead] at hlive), fun _ _ =>
      (fun h => by cases h),
      fun _ => rfl, fun _ => rfl⟩
  | install s connectionId stage temp => exact absurd (hc.tempPeer.symm.trans temp) (by simp)
  | handover s free =>
    refine ⟨fun inbound => (hi.removal inbound).hold free _, (fun _ h => by cases h), ?_⟩
    exact hi.cleared.step hc.control (fun _ => id) (fun _ => id)
      (fun h => h.imp_right (fun h => by cases h)) id

theorem step_backed {A : SkbAllocator} {queueLimit : Nat} {a : Action} (hc : σ.Configured)
    (hi : σ.Backed) (h : σ.step A queueLimit a = some τ) : τ.Backed := by
  have hcontrol := hc.control
  cases a with
  | kernel e => exact hi.arming hcontrol (kernelStep_arming h)
  | callback s =>
    have he := (callbackStep_cases h).effect
    exact ⟨fun b => he.removalBacked hc (hi.removal b), he.requeues hi.requeues,
      he.stopCleared hc hi.cleared⟩
  | read choice => exact hi.arming hcontrol (readStep_arming h)
  | write choice => exact hi.arming hcontrol (writeStep_arming h)
  | request r => exact hi.arming hcontrol (requestStep_arming h)
  | thread t choice =>
    have ht := threadStep_steps hcontrol h
    exact ⟨fun b => ht.removalBacked hc (hi.removal b), ht.requeues hc hi.requeues,
      ht.stopCleared hc hi.cleared⟩
  | locked choice =>
    obtain ⟨k, hk, h⟩ := Option.bind_eq_some_iff.mp h
    have hm := lockedStep_cases hcontrol hk h
    exact ⟨fun b => hm.removalBacked hk hc hi.requeues (hi.removal b),
      hm.requeues (hcontrol.holder k hk).1, hm.stopCleared hk hc hi.cleared⟩
  | lifecycle l => exact lifecycleStep_backed hc hi h

end State

end WgTcp
