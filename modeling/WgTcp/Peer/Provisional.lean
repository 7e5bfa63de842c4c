import WgTcp.Peer.Moves

/-!
# What a provisional peer does not do

A provisional peer neither dials nor removes sockets nor promotes anything:
none of these work items is ever queued, and its removal flags are only set
when it is destroyed or gives its socket away, which it does not survive.
-/

namespace WgTcp

namespace Peer

/-- The flags of everything but the stream are as before. -/
structure Unclaimed (p q : Peer) : Prop where
  retry : q.retry = p.retry
  outbound : q.outboundRemove = p.outboundRemove
  inbound : q.inboundRemove = p.inboundRemove
  gone : p.isDead = true ∨ p.tcpStopping = true → q.isDead = true ∨ q.tcpStopping = true

variable {d : Device} {p : Peer}

theorem Unclaimed.refl (p : Peer) : p.Unclaimed p := ⟨rfl, rfl, rfl, id⟩

theorem wgTcpScheduleWriteLocked_unclaimed (d : Device) (p : Peer) :
    p.Unclaimed (wgTcpScheduleWriteLocked d p) := by
  rw [wgTcpScheduleWriteLocked_eq]
  exact ⟨rfl, rfl, rfl, id⟩

theorem wgTcpDataReady_unclaimed (d : Device) (p : Peer) : p.Unclaimed (p.wgTcpDataReady d) := by
  unfold wgTcpDataReady
  split <;> exact ⟨rfl, rfl, rfl, id⟩

theorem wgTcpWriteSpace_unclaimed (d : Device) (p : Peer) : p.Unclaimed (p.wgTcpWriteSpace d) := by
  unfold wgTcpWriteSpace
  split
  · exact .refl p
  · exact wgTcpScheduleWriteLocked_unclaimed d p

theorem finishReader_unclaimed (d : Device) (p : Peer) (captured : Option SockId) (queue : Bytes)
    (budget : Bool) : p.Unclaimed (p.finishReader d captured queue budget) := by
  unfold finishReader
  split <;> exact ⟨rfl, rfl, rfl, id⟩

theorem finishWriter_unclaimed (d : Device) (p : Peer) (captured : Option SockId)
    (writeable : Bool) : p.Unclaimed (p.finishWriter d captured writeable) := by
  unfold finishWriter
  split <;> exact ⟨rfl, rfl, rfl, id⟩

theorem wgTcpFailExactSocket_unclaimed (hp : p.tempPeer = true) (s : SockId) :
    p.Unclaimed (p.wgTcpFailExactSocket d s) := by
  unfold wgTcpFailExactSocket
  rw [hp]
  repeat' split
  all_goals first | exact .refl p | exact ⟨rfl, rfl, rfl, fun _ => .inl rfl⟩ | contradiction

theorem stateChangeSection_unclaimed (hp : p.tempPeer = true) (s : SockId) (inbound : Bool)
    (skState : TcpState) : p.Unclaimed (p.stateChangeSection s inbound skState).1 := by
  unfold stateChangeSection stateEstablished
  rw [hp]
  repeat' split
  all_goals first | exact .refl p | exact ⟨rfl, rfl, rfl, fun _ => .inl rfl⟩ | contradiction

theorem wgTcpQueueCarrierBootstrap_unclaimed (p : Peer) (s : SockId) :
    p.Unclaimed (p.wgTcpQueueCarrierBootstrap s) := by
  unfold wgTcpQueueCarrierBootstrap
  split <;> exact ⟨rfl, rfl, rfl, id⟩

end Peer

namespace State

variable {σ τ : State} {h k : Holder}

/-- What holds of a provisional peer at every step. -/
structure Bare (σ : State) : Prop where
  callers : ∀ caller, σ.caller caller = none
  outboundIdle : σ.outbound = .idle
  inboundIdle : σ.inbound = .idle
  retry : σ.peer.retry = .idle
  outboundWork : σ.peer.outboundRemove.work = false
  inboundWork : σ.peer.inboundRemove.work = false
  outbound : σ.peer.outboundRemove.scheduled = true →
    σ.peer.isDead = true ∨ σ.peer.tcpStopping = true
  inbound : σ.peer.inboundRemove.scheduled = true →
    σ.peer.isDead = true ∨ σ.peer.tcpStopping = true

theorem bare_init (tempPeer : Bool) (addressing : Addressing) :
    (State.init tempPeer addressing).Bare where
  callers := fun caller => (by cases caller <;> rfl)
  outboundIdle := rfl
  inboundIdle := rfl
  retry := rfl
  outboundWork := rfl
  inboundWork := rfl
  outbound := fun h => (by cases h)
  inbound := fun h => (by cases h)

/-- The threads stay where they are. -/
theorem Bare.update (hi : σ.Bare) (hretry : τ.peer.retry = .idle)
    (hout : τ.peer.outboundRemove.work = false) (hin : τ.peer.inboundRemove.work = false)
    (houtGone : τ.peer.outboundRemove.scheduled = true →
      τ.peer.isDead = true ∨ τ.peer.tcpStopping = true)
    (hinGone : τ.peer.inboundRemove.scheduled = true →
      τ.peer.isDead = true ∨ τ.peer.tcpStopping = true)
    (hthread : τ.retry = σ.retry := by rfl) (hadmin : τ.admin = σ.admin := by rfl)
    (houtbound : τ.outbound = σ.outbound := by rfl)
    (hinbound : τ.inbound = σ.inbound := by rfl) : τ.Bare where
  callers := fun caller => by
    have := hi.callers caller
    cases caller with
    | retry => exact hthread.trans this
    | admin => exact hadmin.trans this
    | outbound => simpa only [State.caller, houtbound] using this
  outboundIdle := houtbound.trans hi.outboundIdle
  inboundIdle := hinbound.trans hi.inboundIdle
  retry := hretry
  outboundWork := hout
  inboundWork := hin
  outbound := houtGone
  inbound := hinGone

theorem Bare.keep (hi : σ.Bare) (hp : σ.peer.Unclaimed τ.peer)
    (hretry : τ.retry = σ.retry := by rfl)
    (hadmin : τ.admin = σ.admin := by rfl) (houtbound : τ.outbound = σ.outbound := by rfl)
    (hinbound : τ.inbound = σ.inbound := by rfl) : τ.Bare :=
  hi.update (hp.retry.trans hi.retry) (hp.outbound ▸ hi.outboundWork) (hp.inbound ▸ hi.inboundWork)
    (fun hs => hp.gone (hi.outbound (hp.outbound ▸ hs)))
    (fun hs => hp.gone (hi.inbound (hp.inbound ▸ hs))) hretry hadmin houtbound hinbound

/-- A live provisional peer claims nothing. -/
theorem Bare.unclaimed (hi : σ.Bare) (hlive : σ.peer.live σ.device = true) :
    σ.peer.outboundRemove.scheduled = false ∧ σ.peer.inboundRemove.scheduled = false ∧
      σ.peer.retry.scheduled = false := by
  have hout := hi.outbound
  have hin := hi.inbound
  refine ⟨?_, ?_, by simp [hi.retry, WorkItem.idle]⟩
  · by_contra hs
    simp_all [Peer.live]
  · by_contra hs
    simp_all [Peer.live]

theorem callbackStep_bare {s : SockId} (htemp : σ.peer.tempPeer = true) (hi : σ.Bare)
    (h : σ.callbackStep s = some τ) : τ.Bare := by
  cases callbackStep_cases h with
  | dataReady => exact hi.keep (Peer.wgTcpDataReady_unclaimed _ _)
  | writeSpace => exact hi.keep (Peer.wgTcpWriteSpace_unclaimed _ _)
  | stateSection inbound => exact hi.keep (Peer.stateChangeSection_unclaimed htemp _ _ _)
  | tailRetry =>
    refine hi.keep ⟨?_, rfl, rfl, id⟩
    simp [Peer.takeRetryWork, hi.retry, WorkItem.idle]
  | tailBootstrap => exact hi.keep (Peer.wgTcpQueueCarrierBootstrap_unclaimed _ _)
  | tailRemoval inbound =>
    -- While the peer is live nothing is claimed.
    have hnone : σ.peer.queueRemoval σ.device s inbound = σ.peer := by
      unfold Peer.queueRemoval
      split
      · rfl
      · rename_i hlive
        obtain ⟨hout, hin, -⟩ := hi.unclaimed (by simpa using hlive)
        simp [hout, hin]
    rw [hnone]
    exact hi.keep (.refl _)
  | _ => exact hi.keep (.refl _)

theorem readStep_bare {A : SkbAllocator} {choice : ReadChoice} (hi : σ.Bare)
    (h : σ.readStep A choice = some τ) : τ.Bare := by
  cases readStep_cases h with
  | finish => exact hi.keep (Peer.finishReader_unclaimed _ _ _ _ _)
  | _ => exact hi.keep ⟨rfl, rfl, rfl, id⟩

theorem writeStep_bare {choice : SendChoice} (htemp : σ.peer.tempPeer = true) (hi : σ.Bare)
    (h : σ.writeStep choice = some τ) : τ.Bare := by
  cases writeStep_cases h with
  | dequeue s =>
    unfold writeDequeue
    split <;> exact hi.keep ⟨rfl, rfl, rfl, id⟩
  | fail => exact hi.keep (Peer.wgTcpFailExactSocket_unclaimed htemp _)
  | finish => exact hi.keep (Peer.finishWriter_unclaimed _ _ _ _)
  | _ => exact hi.keep ⟨rfl, rfl, rfl, id⟩

theorem requestStep_bare {queueLimit : Nat} {r : Request} (htemp : σ.peer.tempPeer = true)
    (hi : σ.Bare) (h : σ.requestStep queueLimit r = some τ) : τ.Bare := by
  cases r with
  | enqueue frame =>
    cases h
    unfold enqueueStep
    split
    · rename_i p s hp hs
      obtain ⟨-, -, -, -, rfl⟩ := Peer.wgTcpEnqueueFrame_ok hp
      have := Peer.wgTcpScheduleWriteLocked_unclaimed σ.device
        { σ.peer with sendQueue := σ.peer.sendQueue ++ [frame] }
      exact hi.keep ⟨this.retry, this.outbound, this.inbound, this.gone⟩
    · exact hi
  | _ => simp [requestStep, htemp] at h

theorem threadStep_bare {choice : Choice} {t : Thread} (hc : σ.Control)
    (htemp : σ.peer.tempPeer = true) (hi : σ.Bare) (h : σ.threadStep choice t = some τ) :
    τ.Bare := by
  have nobody {caller : Caller} {pc : DialPc} {Q : Prop} (hpc : σ.caller caller = some pc) : Q := by
    simp [hi.callers] at hpc
  have idleOutbound {pc : OutboundPc} {Q : Prop} (hpc : σ.outbound = pc) (hne : pc ≠ .idle) : Q :=
    absurd (hpc.symm.trans hi.outboundIdle) hne
  have hretry : σ.peer.takeRetryWork.retry = σ.peer.retry := by
    simp [Peer.takeRetryWork, hi.retry, WorkItem.idle]
  cases threadStep_steps hc h with
  | retryBegin idle work => simp [hi.retry, WorkItem.idle] at work
  | dialRefused caller pc => exact nobody pc
  | dialLock caller pc => exact nobody pc
  | dialGreet caller s pc => exact nobody pc
  | dialGiveUp pc => exact nobody (show σ.caller .admin = _ from pc)
  | dialAgain caller pc => exact nobody pc
  | outboundTake idle work => simp [hi.outboundWork] at work
  | outboundCancel retryNeeded pc => exact idleOutbound pc (fun h => by cases h)
  | outboundLock retryNeeded pc => exact idleOutbound pc (fun h => by cases h)
  | outboundPost post pc => exact idleOutbound pc (fun h => by cases h)
  | inboundDead idle work => simp [hi.inboundWork] at work
  | inboundTake idle work => simp [hi.inboundWork] at work
  | inboundLock pc => simp [hi.inboundIdle] at pc
  | stopBegin =>
    rw [htemp]
    exact hi.update hi.retry hi.outboundWork hi.inboundWork (fun _ => .inl rfl) fun _ => .inl rfl
  | stopRetry => exact hi.keep ⟨hretry, rfl, rfl, id⟩
  | stopOutbound => exact hi.update hi.retry rfl hi.inboundWork hi.outbound hi.inbound
  | stopInbound => exact hi.update hi.retry hi.outboundWork rfl hi.outbound hi.inbound
  | stopFinish =>
    exact hi.update hi.retry hi.outboundWork hi.inboundWork (fun h => by cases h)
      (fun h => by cases h)
  | _ => exact hi.keep ⟨rfl, rfl, rfl, id⟩

/-- Only the listener, a promotion of its socket, the bootstrap and the destruction ever hold the
lock of a provisional peer. -/
theorem Bare.holding (hi : σ.Bare) (hc : σ.Control) (htemp : σ.peer.tempPeer = true)
    (hl : σ.lock = some h) :
    h.thread = .bootstrap ∨ h.thread = .stop ∨ h.thread = .provisional := by
  have hin := (hc.holder h hl).2
  cases ht : h.thread with
  | dial caller => simp [ht, Inside, hi.callers] at hin
  | outbound => simp [ht, Inside, hi.outboundIdle] at hin
  | inbound => simp [ht, Inside, hi.inboundIdle] at hin
  | promotion => simp [ht, Inside, (hc.provisional htemp).1] at hin
  | bootstrap => exact .inl rfl
  | stop => exact .inr (.inl rfl)
  | provisional => exact .inr (.inr rfl)

theorem LockedMove.bare (hm : σ.LockedMove h τ) (hl : σ.lock = some h) (hc : σ.Control)
    (htemp : σ.peer.tempPeer = true) (hi : σ.Bare) : τ.Bare := by
  have hthread := hi.holding hc htemp hl
  cases hm with
  | pass => exact hi.keep (.refl _)
  | rearm =>
    rw [Peer.rearm_eq]
    exact hi.keep ⟨rfl, rfl, rfl, id⟩
  | installData => exact hi.keep (Peer.wgTcpDataReady_unclaimed _ _)
  | installFinish s =>
    unfold Peer.finishInit
    split <;> exact hi.keep ⟨rfl, rfl, rfl, fun h => (by first | exact h | exact .inl rfl)⟩
  | clearFlags plan =>
    cases plan with
    | stop =>
      refine hi.keep ⟨?_, rfl, rfl, id⟩
      simp [Plan.clear, Peer.stopClear, hi.retry, WorkItem.idle]
    | _ => exact hi.keep ⟨rfl, rfl, rfl, id⟩
  | release =>
    refine hi.keep ⟨?_, rfl, rfl, id⟩
    simp [hi.retry, WorkItem.idle]
  | stopReclaim =>
    have hstop : σ.stop = .inside := (hc.holder _ hl).2
    have hstopping := hc.stop.stopping (by simp [hstop, StopPc.rank])
    exact hi.update hi.retry hi.outboundWork hi.inboundWork (fun _ => .inr hstopping)
      fun _ => .inr hstopping
  | handoverClaim =>
    exact hi.update hi.retry hi.outboundWork hi.inboundWork (fun _ => .inl rfl) fun _ => .inl rfl
  | handoverDetach =>
    exact hi.update hi.retry hi.outboundWork hi.inboundWork hi.outbound (fun h => by cases h)
  | setup | bootstrapTake | bootstrapUnlock | stopPurgeNone | stopPurge | stopUnlock | installFail
  | destroyed | handoverNothing | handoverReset | cancelRead | cancelWrite | reset | purge
  | shutdown => exact hi.keep ⟨rfl, rfl, rfl, id⟩
  | _ => simp [Holder.thread] at hthread

theorem lifecycleStep_bare {l : Lifecycle} (hc : σ.Control) (htemp : σ.peer.tempPeer = true)
    (hi : σ.Bare) (h : σ.lifecycleStep l = some τ) : τ.Bare := by
  cases lifecycleStep_cases hc h with
  | deviceUp done temp => exact absurd (htemp.symm.trans temp) (by simp)
  | removePeer => exact hi.update rfl rfl rfl (fun h => by cases h) (fun h => by cases h)
  | _ => exact hi.keep ⟨rfl, rfl, rfl, id⟩

theorem step_bare {A : SkbAllocator} {queueLimit : Nat} {a : Action} (hc : σ.Control)
    (htemp : σ.peer.tempPeer = true) (hi : σ.Bare) (h : σ.step A queueLimit a = some τ) :
    τ.Bare := by
  cases a with
  | kernel e =>
    obtain ⟨sk, -, rfl⟩ := Option.map_eq_some_iff.mp h
    exact hi.keep (.refl _)
  | callback s => exact callbackStep_bare htemp hi h
  | read choice => exact readStep_bare hi h
  | write choice => exact writeStep_bare htemp hi h
  | request r => exact requestStep_bare htemp hi h
  | thread t choice => exact threadStep_bare hc htemp hi h
  | locked choice =>
    obtain ⟨k, hk, h⟩ := Option.bind_eq_some_iff.mp h
    exact (lockedStep_cases hc hk h).bare hk hc htemp hi
  | lifecycle l => exact lifecycleStep_bare hc htemp hi h

end State

end WgTcp
