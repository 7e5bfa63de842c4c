import WgTcp.Peer.Backing
import WgTcp.Peer.Provisional

/-!
# The retry flag

`tcp_retry_scheduled` is set together with the retry work, and whoever takes
the work away takes the flag back: the retry worker itself, the outbound
removal worker, a release, a stop. The exception is the state callback of a
socket that gets established. It takes the flag back under `tcp_lock` and
cancels the work after it has left that lock, so that a request to dial in
between loses the work it has just queued, with the flag set.
-/

namespace WgTcp

/-- The removal worker has cancelled the retry work; it takes the flag back next. -/
def Holder.viewsOutbound : Holder → Bool
  | .outboundView _ => true
  | _ => false

/-- A thread that connects or unwinds, promotes or removes. -/
def Holding.critical : Holding → Bool
  | .dial _ | .outbound | .inbound | .promotion => true
  | .bootstrap | .stop | .provisional => false

theorem Holder.critical_of_restores {inbound : Bool} {k : Holder} (h : k.restores inbound = true) :
    k.thread.critical = true := by
  have owner {o : Owner} (h : o.restores inbound = true) : o.thread.critical = true := by
    cases o <;> first | rfl | cases h
  have plan {p : Plan} (h : p.restores inbound = true) : p.thread.critical = true := by
    cases p with
    | detach s o => exact owner h
    | promote => rfl
    | _ => cases h
  cases k with
  | drain _ p | cancelRead p | cancelWrite p | clearFlags p => exact plan h
  | reset _ o | release _ o | purge _ o | shutdown _ o => exact owner h
  | _ => first | rfl | cases h

namespace State

variable {σ τ : State} {h k : Holder} {W : State → Prop}

/-- A retry that is scheduled is queued, or about to be taken back; `W` is what else may be the
case. -/
def RetryBacked (W : State → Prop) (σ : State) : Prop :=
  σ.peer.live σ.device = true → σ.peer.retry.scheduled = true →
    σ.peer.retry.work = true ∨ σ.outbound.starts = true ∨
      σ.lock.any Holder.viewsOutbound = true ∨ W σ

theorem retryBacked_init (tempPeer : Bool) (addressing : Addressing) :
    (State.init tempPeer addressing).RetryBacked W :=
  fun _ hs => (by cases hs)

theorem RetryBacked.step (hi : σ.RetryBacked W)
    (hlive : τ.peer.live τ.device = true → σ.peer.live σ.device = true)
    (hr : σ.peer.retry.Arms τ.peer.retry)
    (hstarts : σ.outbound.starts = true → τ.outbound.starts = true)
    (hviews : σ.lock.any Holder.viewsOutbound = true → τ.lock.any Holder.viewsOutbound = true)
    (hW : W σ → τ.peer.retry.scheduled = true → W τ) : τ.RetryBacked W := by
  intro hl hs
  rcases hr.1 hs with hs' | hw
  · exact (hi (hlive hl) hs').imp hr.2 (.imp hstarts (.imp hviews fun h => hW h hs))
  · exact .inl hw

theorem Arming.retryBacked (ha : σ.Arming τ) (hi : σ.RetryBacked W)
    (hW : W σ → τ.peer.retry.scheduled = true → W τ) : τ.RetryBacked W :=
  hi.step (by rw [ha.device]; exact ha.keeps.live) ha.queues.retry (by rw [ha.outbound]; exact id)
    (by rw [ha.lock]; exact id) hW

theorem CallbackEffect.retryBacked {s : SockId} (he : σ.CallbackEffect s τ) (hi : σ.RetryBacked W)
    (hW : W σ → τ.peer.retry.scheduled = true → W τ)
    (hcancel : ∀ inbound tail, (σ.socks s).userData = some inbound →
      (σ.socks s).callback = some (.stateTail tail) → tail.cancelRetry = true →
      σ.peer.retry.scheduled = true → W τ) : τ.RetryBacked W := by
  cases he with
  | arming arming => exact arming.retryBacked hi hW
  | stateSection inbound =>
    have hkeep := Peer.stateChangeSection_outside σ.device σ.peer s inbound (σ.socks s).skState
    obtain ⟨hwork, hs⟩ := stateChangeSection_retry σ.peer s inbound (σ.socks s).skState
    exact hi.step hkeep.toKeeps.live ⟨fun h => .inl (hs h), fun h => hwork.trans h⟩ id id hW
  | cancelRetry inbound hook tail due cancel =>
    exact fun _ hs => .inr (.inr (.inr (hcancel inbound tail hook due cancel hs)))
  | queueRemoval inbound =>
    have ha := Peer.queueRemoval_aside σ.device σ.peer s inbound
    exact hi.step ha.toKeeps.live (Peer.queueRemoval_arms _ _ _ _).retry id id hW

/-- A thread that is in a connect is not on its way to a removal. -/
theorem starts_setCaller {σ' : State} {caller : Caller} {pc : DialPc}
    (hpc : σ.caller caller = some pc) (pc' : Option DialPc) (h : σ'.outbound = σ.outbound)
    (hs : σ.outbound.starts = true) : (σ'.setCaller caller pc').outbound.starts = true := by
  cases caller with
  | outbound =>
    rw [caller_outbound_eq_some.mp hpc] at hs
    cases hs
  | retry | admin => exact h ▸ hs

theorem ThreadStep.retryBacked (ht : σ.ThreadStep τ) (hc : σ.Configured) (hi : σ.RetryBacked W)
    (hW : W σ → τ.peer.retry.scheduled = true → W τ) : τ.RetryBacked W := by
  have keep := WorkItem.Arms.refl σ.peer.retry
  have free {p : Holder → Bool} {Q : Prop} (hfree : σ.lock = none) (hl : σ.lock.any p = true) :
      Q := by
    simp [hfree] at hl
  cases ht with
  | retryBegin =>
    intro _ hs
    have := congrArg WorkItem.scheduled (Peer.beginRetry_retry σ.device σ.peer)
    exact absurd (this.symm.trans hs) (by simp [WorkItem.idle])
  | dialRefused caller pc =>
    exact hi.step (by simp) (by simpa using keep) (starts_setCaller pc _ rfl) (by simp) hW
  | dialLock caller pc hfree =>
    exact hi.step (by simp) (by simpa using keep) (starts_setCaller pc _ rfl) (free hfree) hW
  | dialGreet caller s pc =>
    have ha := Peer.wgTcpQueueCarrierBootstrap_aside σ.device σ.peer s
    have hq := (Peer.wgTcpQueueCarrierBootstrap_arms σ.peer s).retry
    exact hi.step (by simpa using ha.toKeeps.live) (by simpa using hq) (starts_setCaller pc _ rfl)
      (by simp) hW
  | dialGiveUp pc => exact hi.step id keep id id hW
  | dialAgain caller pc =>
    have ha := Peer.scheduleRetry_aside σ.device σ.peer
    have hq := (Peer.scheduleRetry_arms σ.peer).retry
    exact hi.step (by simpa using ha.toKeeps.live) (by simpa using hq) (starts_setCaller pc _ rfl)
      (by simp) hW
  | outboundTake | outboundCancel => exact fun _ _ => .inr (.inl rfl)
  | outboundLock => exact fun _ _ => .inr (.inr (.inl rfl))
  | outboundPost post pc =>
    have ha := outboundPostStep_aside σ post
    refine hi.step ?_ (outboundPostStep_queues σ post).retry ?_ ?_ hW
    · rw [ha.device]
      exact ha.peer.toKeeps.live
    · rw [pc]
      intro h
      cases h
    · rw [ha.lock]
      exact id
  | inboundDead idle work temp => exact absurd (hc.tempPeer.symm.trans temp) (by simp)
  | inboundLock pc hfree | bootstrapLock pc hfree | promotionLock s connectionId pc hfree =>
    exact hi.step id keep id (free hfree) hW
  | stopBegin =>
    rw [hc.tempPeer]
    intro hlive
    simp [Peer.live, Peer.stopClaim] at hlive
  | stopRetry pc | stopOutbound pc | stopInbound pc | stopBootstrap pc | stopPromotion pc
  | stopLock pc | stopFinish pc =>
    intro hlive
    have := not_live_of_stop hc.control (by simp [pc, StopPc.rank])
    exact absurd (this.symm.trans hlive) (by simp)
  | inboundTake | bootstrapTake | promotionStart | promotionTake | promotionSkip
  | promotionClaim => exact hi.step id keep id id hW

/-- The holder goes on and leaves the retry alone. -/
theorem RetryBacked.goes (hi : σ.RetryBacked W) (hl : σ.lock = some h)
    (hlive : τ.peer.live τ.device = true → σ.peer.live σ.device = true)
    (hr : σ.peer.retry.Arms τ.peer.retry)
    (hstarts : σ.outbound.starts = true → τ.outbound.starts = true)
    (hviews : h.viewsOutbound = true → τ.lock.any Holder.viewsOutbound = true)
    (hW : W σ → τ.peer.retry.scheduled = true → W τ) : τ.RetryBacked W :=
  hi.step hlive hr hstarts (by rw [hl]; exact hviews) hW

theorem LockedMove.retryBacked (hm : σ.LockedMove h τ) (hl : σ.lock = some h) (hc : σ.Configured)
    (hi : σ.RetryBacked W) (hW : W σ → τ.peer.retry.scheduled = true → W τ) : τ.RetryBacked W := by
  obtain ⟨hok, hin⟩ := hc.control.holder h hl
  have keep := WorkItem.Arms.refl σ.peer.retry
  cases hm with
  | pass passes => exact hi.goes hl id keep id (by cases passes <;> intro h <;> cases h) hW
  | setup setsUp => exact hi.goes hl id keep id (by cases setsUp <;> intro h <;> cases h) hW
  | connectFinish caller s first p finish =>
    have hlive (h : p.live σ.device = true) : σ.peer.live σ.device = true := by
      obtain ⟨-, -, conn, -, rfl⟩ := Peer.connectFinish_some hok.1 finish
      exact h
    exact hi.goes hl hlive (Peer.connectFinish_arms hok.1 finish).retry id (fun h => by cases h) hW
  | unwindQueue caller =>
    rw [Peer.unwindQueue_eq] at hW ⊢
    exact hi.goes hl id keep id (fun h => by cases h) hW
  | connectReturn caller failed greet pc =>
    exact hi.goes hl (by simp) (by simpa using keep) (starts_setCaller hin _ rfl)
      (fun h => by cases h) hW
  | outboundClean | outboundStale | release => exact fun _ => (fun h => by cases h)
  | outboundUnlock post =>
    refine hi.goes hl id keep ?_ (fun h => by cases h) hW
    rw [show σ.outbound = .inside from hin]
    intro h
    cases h
  | rearm rearms =>
    exact hi.goes hl (Peer.rearm_outside _ _ _).toKeeps.live (Peer.rearm_arms _ _ _).retry id
      (by cases rearms <;> intro h <;> cases h) hW
  | clearFlags plan =>
    cases plan with
    | stop => exact fun _ => (fun h => by cases h)
    | _ => exact hi.goes hl id keep id (fun h => by cases h) hW
  | stopReclaim | stopPurgeNone | stopPurge | stopUnlock =>
    exact hi.goes hl id keep id (fun h => by cases h) hW
  | installData | installFinish | installFail | handoverNothing | handoverClaim | handoverReset
  | handoverDetach => simp [Inside, Holder.thread, hc.tempPeer] at hin
  | destroyed => exact absurd (hc.tempPeer.symm.trans hok.2) (by simp)
  | _ => exact hi.goes hl id keep id (fun h => by cases h) hW

theorem lifecycleStep_retryBacked {l : Lifecycle} (hc : σ.Configured) (hb : σ.StopCleared)
    (hi : σ.RetryBacked W) (hW : W σ → τ.peer.retry.scheduled = true → W τ)
    (h : σ.lifecycleStep l = some τ) : τ.RetryBacked W := by
  have keep := WorkItem.Arms.refl σ.peer.retry
  cases lifecycleStep_cases hc.control h with
  | deviceDown => exact fun hlive => (by simp [Peer.live] at hlive)
  | deviceUp done =>
    have hcleared := hb.retry (.inl (by simp [done, StopPc.rank]))
    rw [Peer.wgOpen, if_neg (by simp [hc.control.custody.quarantined])]
    intro _ hs
    refine .inl ?_
    dsimp only [setPeer_peer] at hs ⊢
    split at hs
    · rename_i hq
      rw [if_pos hq]
      rfl
    · exact absurd (hcleared.symm.trans hs) (by simp)
  | removePeer => exact fun _ => (fun h => by cases h)
  | install s connectionId stage temp => exact absurd (hc.tempPeer.symm.trans temp) (by simp)
  | handover s free => exact hi.step id keep id (by simp [free]) hW

/-- The callback of an established socket cancels the retry work. -/
def cancelsRetry (σ : State) : Action → Bool
  | .callback s =>
      match (σ.socks s).userData, (σ.socks s).callback with
      | some _, some (.stateTail tail) => tail.cancelRetry
      | _, _ => false
  | _ => false

theorem step_retryBacked {A : SkbAllocator} {queueLimit : Nat} {a : Action} (hc : σ.Configured)
    (hb : σ.StopCleared) (hi : σ.RetryBacked W)
    (hW : W σ → τ.peer.retry.scheduled = true → W τ)
    (hcancel : σ.cancelsRetry a = true → σ.peer.retry.scheduled = true → W τ)
    (h : σ.step A queueLimit a = some τ) : τ.RetryBacked W := by
  cases a with
  | kernel e => exact (kernelStep_arming h).retryBacked hi hW
  | callback s =>
    refine (callbackStep_cases h).effect.retryBacked hi hW ?_
    exact fun inbound tail hook due cancel => hcancel (by simp [cancelsRetry, hook, due, cancel])
  | read choice => exact (readStep_arming h).retryBacked hi hW
  | write choice => exact (writeStep_arming h).retryBacked hi hW
  | request r => exact (requestStep_arming h).retryBacked hi hW
  | thread t choice => exact (threadStep_steps hc.control h).retryBacked hc hi hW
  | locked choice =>
    obtain ⟨k, hk, h⟩ := Option.bind_eq_some_iff.mp h
    exact (lockedStep_cases hc.control hk h).retryBacked hk hc hi hW
  | lifecycle l => exact lifecycleStep_retryBacked hc hb hi hW h

/-! ## Results -/

/-- Behind the cancellation of the stream workers by a thread that neither connects nor promotes nor
removes, the peer is gone. -/
theorem not_live_of_cancelled (hc : σ.Control) (hl : σ.lock = some k)
    (hcancelled : k.readCancelled = true) (hcritical : k.thread.critical = false) :
    σ.peer.live σ.device = false := by
  obtain ⟨hok, hin⟩ := hc.holder k hl
  have plan {p : Plan} (hp : p.Ok σ) (hin : σ.Inside p.thread)
      (hcritical : p.thread.critical = false) : σ.peer.live σ.device = false := by
    cases ht : p.thread with
    | stop =>
      have hstop : σ.stop = .inside := by simpa [ht, Inside] using hin
      exact not_live_of_stop hc (by simp [hstop, StopPc.rank])
    | provisional =>
      cases p with
      | handover s => simp [Peer.live, hp.2]
      | detach s owner => cases owner <;> cases ht
      | _ => cases ht
    | bootstrap =>
      cases p with
      | detach s owner => cases owner <;> cases ht
      | _ => cases ht
    | _ => simp [ht, Holding.critical] at hcritical
  cases k with
  | cancelWrite p => exact plan hok.1 hin hcritical
  | clearFlags p => exact plan hok.1 hin hcritical
  | _ => cases hcancelled

/-- A request to dial has not come between the two halves of the callback. -/
def RetryKept (σ : State) (a : Action) : Prop :=
  σ.cancelsRetry a = true → σ.peer.retry.scheduled = false

instance (σ : State) (a : Action) : Decidable (σ.RetryKept a) :=
  inferInstanceAs (Decidable (_ → _))

variable {A : SkbAllocator} {queueLimit : Nat} {tempPeer : Bool} {addressing : Addressing}
  {as : List Action}

theorem Reaches.backed (h : Reaches A queueLimit false addressing as σ) :
    σ.Configured ∧ σ.Backed :=
  Transition.run_invariant (I := fun σ => σ.Configured ∧ σ.Backed)
    (fun _ _ _ hi h => ⟨hi.1.step h, step_backed hi.1 hi.2 h⟩)
    ⟨configured_init addressing, backed_init false addressing⟩ h

theorem Reaches.bare (h : Reaches A queueLimit true addressing as σ) : σ.Bare :=
  (Transition.run_invariant (I := fun σ => (σ.Control ∧ σ.peer.tempPeer = true) ∧ σ.Bare)
    (fun _ _ _ hi h => ⟨⟨step_control hi.1.1 h, (step_tempPeer hi.1.1 h).trans hi.1.2⟩,
      step_bare hi.1.1 hi.1.2 hi.2 h⟩)
    ⟨⟨control_init true addressing, rfl⟩, bare_init true addressing⟩ h).2

theorem Reaches.retryBacked (h : Reaches A queueLimit false addressing as σ)
    (hkept : Transition.Meets (step A queueLimit) RetryKept (.init false addressing) as) :
    σ.RetryBacked fun _ => False := by
  refine (Transition.run_invariant_of_meets
    (I := fun σ => (σ.Configured ∧ σ.Backed) ∧ σ.RetryBacked fun _ => False) ?_
    ⟨⟨configured_init addressing, backed_init false addressing⟩, retryBacked_init false addressing⟩
    hkept h).2
  rintro σ a τ ⟨⟨hc, hb⟩, hi⟩ hkept h
  refine ⟨⟨hc.step h, step_backed hc hb h⟩, step_retryBacked hc hb.cleared hi (fun h => by cases h)
    ?_ h⟩
  intro hcancels hs
  simp [hkept hcancels] at hs

/-- Outside the sections that connect, unwind, promote or remove, and outside the tail of a state
callback on the peer's socket, every flag of a live peer has its work pending or running. -/
theorem flags_backed (h : Reaches A queueLimit tempPeer addressing as σ)
    (hkept : Transition.Meets (step A queueLimit) RetryKept (.init tempPeer addressing) as)
    (hlock : ∀ k, σ.lock = some k → k.thread.critical = false)
    (hcallback : ∀ s tail, σ.peer.links.peerSocket = some s →
      (σ.socks s).callback ≠ some (.stateTail tail))
    (hlive : σ.peer.live σ.device = true) :
    (σ.peer.read.scheduled = true → σ.peer.read.work = true ∨ σ.reader ≠ .idle) ∧
    (σ.peer.write.scheduled = true → σ.peer.write.work = true ∨ σ.writer ≠ .idle) ∧
    (σ.peer.outboundRemove.scheduled = true →
      σ.peer.outboundRemove.work = true ∨ σ.outbound ≠ .idle) ∧
    (σ.peer.inboundRemove.scheduled = true →
      σ.peer.inboundRemove.work = true ∨ σ.inbound ≠ .idle) ∧
    (σ.peer.retry.scheduled = true → σ.peer.retry.work = true ∨ σ.retry ≠ none ∨
      σ.peer.outboundRemove.work = true ∨ σ.outbound ≠ .idle) := by
  have hstream := h.streamBacked
  have notCancelled {p : Holder → Bool} (hp : ∀ k, p k = true → k.readCancelled = true) :
      σ.lock.any p ≠ true := by
    intro hl
    obtain ⟨k, hk, hpk⟩ := (Option.any_eq_true _ _).mp hl
    have := not_live_of_cancelled h.control hk (hp k hpk) (hlock k hk)
    simp [this] at hlive
  have hread := notCancelled fun _ => id
  have hwrite := notCancelled (p := Holder.writeCancelled) fun k hk => by
    cases k <;> first | rfl | cases hk
  refine ⟨fun hs => ?_, fun hs => ?_, ?_⟩
  · exact (hstream.read hs).imp_right (Or.resolve_right · hread)
  · exact (hstream.write hs).imp_right (Or.resolve_right · hwrite)
  cases tempPeer with
  | true =>
    obtain ⟨hout, hin, hretry⟩ := h.bare.unclaimed hlive
    simp [hout, hin, hretry]
  | false =>
    have starts {pc : OutboundPc} (hpc : pc.starts = true) : pc ≠ .idle := by
      rintro rfl
      cases hpc
    have notRestored {inbound : Bool} : σ.lock.any (Holder.restores inbound) ≠ true := by
      intro hl
      obtain ⟨k, hk, hrestores⟩ := (Option.any_eq_true _ _).mp hl
      exact absurd (hlock k hk) (by simp [Holder.critical_of_restores hrestores])
    have notRemoving {inbound : Bool} : ¬ σ.CallbackRemoves inbound := by
      rintro ⟨s, tail, hook, hcb, -⟩
      refine hcallback s tail ?_ hcb
      rw [(h.control.custody.on_of_hook hook).1]
      rfl
    obtain ⟨-, hbacked⟩ := h.backed
    refine ⟨fun hs => ?_, fun hs => ?_, fun hs => ?_⟩
    · rcases hbacked.removal false hlive hs with hw | hstarts | hl | hr
      · exact .inl hw
      · exact .inr (starts hstarts)
      · exact absurd hl notRestored
      · exact absurd hr notRemoving
    · rcases hbacked.removal true hlive hs with hw | hstarts | hl | hr
      · exact .inl hw
      · exact .inr (by rw [show σ.inbound = .wait from hstarts]; intro h; cases h)
      · exact absurd hl notRestored
      · exact absurd hr notRemoving
    · rcases h.retryBacked hkept hlive hs with hw | hstarts | hl | hfalse
      · exact .inl hw
      · exact .inr (.inr (.inr (starts hstarts)))
      · obtain ⟨k, hk, hviews⟩ := (Option.any_eq_true _ _).mp hl
        cases k with
        | outboundView => exact absurd (hlock _ hk) (by simp [Holder.thread, Holding.critical])
        | _ => cases hviews
      · exact hfalse.elim

/-- A configured peer dials, and the connection is on its way. -/
def dialRun : List Action :=
  [.request (.setEndpoint (.inet 51820 1 0 0) true), .request .connect,
    .thread .admin ⟨true, 0⟩] ++ List.replicate 7 (.locked ⟨true, 0⟩)

theorem flags_backed_dialing : ∃ σ, Reaches exactAllocator 4 false .unset dialRun σ ∧
    σ.peer.retry.scheduled = true ∧
    (σ.peer.retry.work = true ∨ σ.retry ≠ none ∨ σ.peer.outboundRemove.work = true ∨
      σ.outbound ≠ .idle) := by
  have hrun : ((Transition.run (step exactAllocator 4) (.init false .unset) dialRun).any fun σ =>
      decide (σ.lock = none ∧ σ.peer.links.peerSocket = some 0 ∧ (σ.socks 0).callback = none ∧
        σ.peer.live σ.device = true ∧ σ.peer.retry.scheduled = true)) = true := by
    decide +kernel
  have hkept : Transition.Meets (step exactAllocator 4) RetryKept (.init false .unset) dialRun := by
    decide +kernel
  obtain ⟨σ, hσ, hcheck⟩ := Transition.exists_run_of_any hrun
  obtain ⟨hfree, hactive, hcb, hlive, hs⟩ := of_decide_eq_true hcheck
  have hcallback (s : SockId) (tail : StateTail) (hsock : σ.peer.links.peerSocket = some s) :
      (σ.socks s).callback ≠ some (.stateTail tail) := by
    obtain rfl : 0 = s := Option.some.inj (hactive.symm.trans hsock)
    simp [hcb]
  have hbacked := flags_backed hσ hkept (by simp [hfree]) hcallback hlive
  exact ⟨σ, hσ, hs, hbacked.2.2.2.2 hs⟩

/-- A request to dial finds the flag taken back, and the callback then cancels its work. -/
def wedgedRun : List Action :=
  dialRun ++ [.kernel (.transition 0 .established), .callback 0, .callback 0, .request .dial,
    .callback 0, .callback 0, .callback 0]

theorem flags_backed_fails : ∃ σ, Reaches exactAllocator 4 false .unset wedgedRun σ ∧
    σ.lock = none ∧ σ.peer.links.peerSocket = some 0 ∧ (σ.socks 0).callback = none ∧
    σ.peer.live σ.device = true ∧ σ.peer.retry.scheduled = true ∧ σ.peer.retry.work = false ∧
    σ.retry = none ∧ σ.peer.outboundRemove.work = false ∧ σ.outbound = .idle := by
  have hrun : ((Transition.run (step exactAllocator 4) (.init false .unset) wedgedRun).any fun σ =>
      decide (σ.lock = none ∧ σ.peer.links.peerSocket = some 0 ∧ (σ.socks 0).callback = none ∧
        σ.peer.live σ.device = true ∧ σ.peer.retry.scheduled = true ∧ σ.peer.retry.work = false ∧
        σ.retry = none ∧ σ.peer.outboundRemove.work = false ∧ σ.outbound = .idle)) = true := by
    decide +kernel
  obtain ⟨σ, hσ, hcheck⟩ := Transition.exists_run_of_any hrun
  exact ⟨σ, hσ, of_decide_eq_true hcheck⟩

end State

end WgTcp
