import WgTcp.Peer.HolderMoves

/-!
# Ownership under the lock

Every step of the holder of `tcp_socket_lock` leads to a point at which it
knows what `Holder.Ok` says it knows.
-/

namespace WgTcp

/-! ## What a section under the lock leaves alone -/

/-- The parts of the peer that concern other threads. -/
@[mk_iff] structure Peer.Under (p q : Peer) : Prop where
  tempPeer : q.tempPeer = p.tempPeer
  quarantined : q.tcpTeardownQuarantined = p.tcpTeardownQuarantined
  tcpStopping : p.tcpStopping = true → q.tcpStopping = true
  work : p.tcpStopping = true → p.NoNewWork q
  promotions : p.tempPeer = true → q.promotion.work = true → p.promotion.work = true
  claimOutbound : (p.outboundRemove.socket.isSome → p.outboundRemove.scheduled = true) →
    q.outboundRemove.socket.isSome → q.outboundRemove.scheduled = true
  claimInbound : (p.inboundRemove.socket.isSome → p.inboundRemove.scheduled = true) →
    q.inboundRemove.socket.isSome → q.inboundRemove.scheduled = true

namespace Peer

theorem Under.refl (p : Peer) : p.Under p := ⟨rfl, rfl, id, fun _ => .refl p, fun _ => id, id, id⟩

theorem Keeps.under {d : Device} {p q : Peer} (h : p.Keeps d q) : p.Under q :=
  ⟨h.tempPeer, h.quarantined, fun hs => h.tcpStopping.trans hs, h.stopped, h.promotions,
    h.outbound.claim, h.inbound.claim⟩

attribute [local simp] under_iff noNewWork_iff

variable {d : Device} {p q : Peer} {s : SockId}

theorem connectFinish_under {skState : TcpState} {first : Bool}
    (h : p.connectFinish d s skState = some (first, q)) :
    p.Under q ∧ q.links = p.links ∧ q.hooks = p.hooks := by
  obtain ⟨hg, h⟩ := Option.ite_none_left_eq_some.mp h
  simp only [Option.some.injEq, Prod.mk.injEq] at h
  obtain ⟨-, rfl⟩ := h
  have hlive : p.tcpStopping = false := by
    simp only [live] at hg
    grind
  unfold wgTcpPublishOutboundEstablishedLocked
  repeat' split
  all_goals simp_all [Removal.claim, WorkItem.queued]

theorem mark_under (p : Peer) (s : Option SockId) :
    p.Under { p with outboundRemove := p.outboundRemove.mark s } := by
  simp [Removal.mark]

theorem unwindFinish_under (d : Device) (p : Peer) : p.Under (p.unwindFinish d).2 := by
  simp [unwindFinish]

theorem unwindQueue_under (p : Peer) : p.Under p.unwindQueue := by
  unfold unwindQueue
  split <;> simp_all

theorem outboundRemoveBegin_under (p : Peer) : p.Under p.outboundRemoveBegin := by
  simp [outboundRemoveBegin]

theorem outboundRemoveFinish_under (p : Peer) (failed : Bool) :
    p.Under (p.outboundRemoveFinish failed) := by
  unfold outboundRemoveFinish
  split <;> simp_all [Removal.clear]

theorem inboundRemoveFinish_under (p : Peer) (failed : Bool) :
    p.Under (p.inboundRemoveFinish failed) := by
  unfold inboundRemoveFinish
  split <;> simp_all [Removal.clear]

theorem rearm_outside (d : Device) (p : Peer) (receiveQueue : Bytes) :
    p.Outside d (p.wgTcpRearmSurvivingStreamLocked d receiveQueue) := by
  unfold wgTcpRearmSurvivingStreamLocked
  split
  · exact .refl d p
  · rename_i hopen
    have hread : p.Outside d (if !p.read.scheduled && p.streamWq && !receiveQueue.isEmpty then
        { p with read := .queued } else p) := by
      split
      · simp_all [outside_iff, keeps_iff, Removal.Grows]
      · exact .refl d p
    simp only
    split
    · exact hread.trans (wgTcpScheduleWriteLocked_outside _ _)
    · exact hread

/-- The surviving stream is armed: reading if there is something to read, writing if there is
something to write. -/
theorem rearm_eq (d : Device) (p : Peer) (receiveQueue : Bytes) :
    p.wgTcpRearmSurvivingStreamLocked d receiveQueue = { p with
      read :=
        if p.streamOpen d && p.conn.established && p.links.peerSocket.isSome && p.streamWq &&
            !p.read.scheduled && !receiveQueue.isEmpty then .queued
        else p.read
      write :=
        if p.streamOpen d && p.conn.established && p.links.peerSocket.isSome && p.streamWq &&
            !p.write.scheduled && !p.sendQueue.isEmpty then .queued
        else p.write } := by
  have hread (c : Bool) : (if c then { p with read := .queued } else p : Peer) =
      { p with read := if c then .queued else p.read } := by cases c <;> rfl
  unfold wgTcpRearmSurvivingStreamLocked
  by_cases hopen : p.streamOpen d = true ∧ p.conn.established = true ∧
      p.links.peerSocket.isSome = true
  · obtain ⟨h₁, h₂, h₃⟩ := hopen
    have hsome : p.links.peerSocket.isNone = false := by simpa using h₃
    have hq (r : WorkItem) : ({ p with read := r } : Peer).streamOpen d = true := h₁
    rw [if_neg (by simp [h₁, h₂, hsome])]
    simp only [hread, wgTcpScheduleWriteLocked_eq, h₁, h₂, h₃, hq, Bool.true_and]
    rw [Bool.and_comm (!p.read.scheduled) p.streamWq]
    cases p.sendQueue.isEmpty <;> simp
  · have hclosed :
      (!p.streamOpen d || !p.conn.established || p.links.peerSocket.isNone) = true := by
      cases hs : p.links.peerSocket <;> grind
    have hfalse : (p.streamOpen d && p.conn.established && p.links.peerSocket.isSome) = false := by
      grind
    rw [if_pos hclosed]
    simp only [hfalse, Bool.false_and]
    rfl

theorem promoteClaim_under (p : Peer) : p.Under p.promoteClaim := by simp [promoteClaim]

theorem promotePublish_under (p : Peer) (s : SockId) : p.Under (p.promotePublish s) := by
  simp [promotePublish, Removal.clear]

theorem hooks_under (p : Peer) (hooks : Hooks) : p.Under { p with hooks := hooks } := by simp

theorem stopReclaim_under (p : Peer) : p.Under p.stopReclaim := by
  simp [stopReclaim, Removal.mark]

theorem purgeSendQueue_under (p : Peer) : p.Under p.purgeSendQueue := by simp [purgeSendQueue]

theorem clear_under (p : Peer) (plan : Plan) : p.Under (plan.clear p) := by
  cases plan <;> simp [Plan.clear, stopClear, clearStreamFlags]

theorem finishInit_under (p : Peer) (skState : TcpState) : p.Under (p.finishInit skState) := by
  unfold finishInit
  split <;> simp_all

end Peer

/-! ## Moving on under the lock -/

namespace State

variable {σ τ : State} {h k : Holder}

/-- The rest of the state under a step of the holder. -/
structure Under (σ τ : State) : Prop where
  peer : σ.peer.Under τ.peer
  retry : τ.retry = σ.retry
  admin : τ.admin = σ.admin
  outbound : τ.outbound = σ.outbound
  inbound : τ.inbound = σ.inbound
  bootstrap : τ.bootstrap = σ.bootstrap
  promotion : τ.promotion = σ.promotion
  stop : τ.stop = σ.stop

theorem Under.inside (hu : σ.Under τ) {t : Holding} (ht : σ.Inside t) : τ.Inside t := by
  cases t with
  | dial caller =>
    cases caller with
    | retry => exact hu.retry.trans ht
    | admin => exact hu.admin.trans ht
    | outbound => simpa only [Inside, State.caller, hu.outbound] using ht
  | outbound => exact hu.outbound.trans ht
  | inbound => exact hu.inbound.trans ht
  | promotion => exact hu.promotion.trans ht
  | bootstrap => exact hu.bootstrap.trans ht
  | stop => exact hu.stop.trans ht
  | provisional => exact hu.peer.tempPeer.trans ht

theorem Under.stays (hu : σ.Under τ) (hs : σ.peer.tcpStopping = true) : σ.Stays τ :=
  .of_noNewWork (hu.peer.work hs) hu.retry.trans hu.outbound.trans hu.inbound.trans
    hu.bootstrap.trans hu.promotion.trans

/-- The holder goes on: its ownership facts are those of the next point. -/
theorem Under.advance (hu : σ.Under τ) (hc : σ.Control) (hl : σ.lock = some h)
    (hlock : τ.lock = some k) (hthread : k.thread = h.thread) (hcustody : τ.Custody) (hok : k.Ok τ)
    (hwaiting : τ.Waiting)
    (hpass : h.passing = true → σ.peer.tcpStopping = true →
      τ.peer.links = σ.peer.links ∧ k.passing = true) : τ.Control where
  custody := hcustody
  holder := by
    intro k' hk'
    obtain rfl : k = k' := Option.some.inj (hlock.symm.trans hk')
    exact ⟨hok, hthread ▸ hu.inside (hc.holder h hl).2⟩
  waiting := hwaiting
  provisional := hc.provisional.step hu.peer.tempPeer hu.peer.promotions fun hidle _ =>
    hu.promotion.trans hidle
  stop := by
    refine hc.stop.step hu.stop hu.peer.tempPeer hu.peer.tcpStopping hu.stays ?_
    intro ht hr
    obtain ⟨hnone, hpassing⟩ := hc.stop.stopped ht hr
    obtain ⟨hlinks, hk⟩ := hpass (hpassing h hl) (hc.stop.stopping (by omega))
    refine ⟨hlinks.trans hnone, ?_⟩
    intro k' hk'
    obtain rfl : k = k' := Option.some.inj (hlock.symm.trans hk')
    exact hk

theorem calm_hold (σ : State) (k : Holder) : σ.Calm (σ.hold k) :=
  ⟨(Peer.Outside.refl σ.device σ.peer).calm, fun _ => .refl _, fun h _ => h, fun h _ => h⟩

/-- The holder goes on without touching anything. -/
theorem hold_control (hc : σ.Control) (hl : σ.lock = some h) (hok : k.Ok σ)
    (hthread : k.thread = h.thread)
    (hpass : h.passing = true → σ.peer.tcpStopping = true → k.passing = true) :
    (σ.hold k).Control :=
  Under.advance (σ := σ) ⟨.refl _, rfl, rfl, rfl, rfl, rfl, rfl, rfl⟩ hc hl rfl hthread
    (hc.custody.congr rfl rfl) ((calm_hold σ k).holder hok) hc.waiting
    fun hp hs => ⟨rfl, hpass hp hs⟩

theorem setPeer_under {p : Peer} (hp : σ.peer.Under p) (k : Holder) :
    σ.Under ((σ.setPeer p).hold k) :=
  ⟨hp, rfl, rfl, rfl, rfl, rfl, rfl, rfl⟩

theorem both_under {p : Peer} (hp : σ.peer.Under p) (s : SockId) (sk : Sock) (k : Holder) :
    σ.Under (((σ.setPeer p).setSock s sk).hold k) :=
  ⟨hp, rfl, rfl, rfl, rfl, rfl, rfl, rfl⟩

theorem custody_setPeer {p : Peer} (hc : σ.Custody) (hp : σ.peer.Under p)
    (hlinks : p.links = σ.peer.links) (hhooks : p.hooks = σ.peer.hooks) (k : Holder) :
    ((σ.setPeer p).hold k).Custody where
  links := by
    rcases hc.links with l | ⟨s, inbound, l, o⟩
    · exact .inl (hlinks.trans l)
    · exact .inr ⟨s, inbound, hlinks.trans l, o⟩
  hooks := by
    rcases hc.hooks with ⟨h, u⟩ | ⟨s, inbound, l, h, u⟩
    · exact .inl ⟨hhooks.trans h, u⟩
    · exact .inr ⟨s, inbound, hlinks.trans l, hhooks.trans h, u⟩
  claimOutbound := hp.claimOutbound hc.claimOutbound
  claimInbound := hp.claimInbound hc.claimInbound
  quarantined := hp.quarantined.trans hc.quarantined

/-- The holder goes on after a section that leaves sockets and callbacks alone. -/
theorem setPeer_control {p : Peer} (hc : σ.Control) (hl : σ.lock = some h)
    (hp : σ.peer.Under p) (hlinks : p.links = σ.peer.links) (hhooks : p.hooks = σ.peer.hooks)
    (hok : k.Ok ((σ.setPeer p).hold k)) (hthread : k.thread = h.thread)
    (hpass : h.passing = true → σ.peer.tcpStopping = true → k.passing = true) :
    ((σ.setPeer p).hold k).Control :=
  (setPeer_under hp k).advance hc hl rfl hthread (custody_setPeer hc.custody hp hlinks hhooks k) hok
    hc.waiting fun h hs => ⟨hlinks, hpass h hs⟩

/-- A new socket gets its callbacks. -/
theorem custody_setup {s : SockId} {inbound : Bool} (hc : σ.Custody)
    (hlinks : σ.peer.links = .on s inbound) (hhooks : σ.peer.hooks = .none) (k : Holder) :
    (((σ.setPeer { σ.peer with hooks := .on s inbound }).setSock s
      { σ.socks s with userData := some inbound }).hold k).Custody where
  links := by
    refine .inr ⟨s, inbound, hlinks, ?_⟩
    rcases hc.links with hl | ⟨t, b, hl, ht⟩
    · rw [hlinks] at hl
      cases hl
    · obtain ⟨rfl⟩ : s = t := by simpa [hlinks, Links.on] using congrArg Links.peerSocket hl
      simpa using ht
  hooks := by
    refine .inr ⟨s, inbound, hlinks, rfl, ?_⟩
    intro t
    by_cases ht : t = s
    · subst ht
      simp
    · simpa [ht] using (hc.unhooked_of_hooks hhooks).userData t
  claimOutbound := hc.claimOutbound
  claimInbound := hc.claimInbound
  quarantined := hc.quarantined

/-- The holder goes on after a call on a socket that keeps its stage and its callbacks. -/
theorem setSock_control {s : SockId} {sk : Sock} (hc : σ.Control) (hl : σ.lock = some h)
    (hsk : (σ.socks s).Calm sk) (hok : k.Ok ((σ.setSock s sk).hold k))
    (hthread : k.thread = h.thread) (hpass : h.passing = false) :
    ((σ.setSock s sk).hold k).Control := by
  have hcalm : σ.Calm ((σ.setSock s sk).hold k) :=
    ⟨(Peer.Outside.refl σ.device σ.peer).calm, hsk.update, fun h _ => h, fun h _ => h⟩
  exact Under.advance (σ := σ) ⟨.refl _, rfl, rfl, rfl, rfl, rfl, rfl, rfl⟩ hc hl rfl hthread
    (hcalm.custody hc.custody) hok (hcalm.waiting rfl hc.waiting) (by simp [hpass])

/-- A peer without a socket gets one. -/
theorem custody_publish {p : Peer} {s : SockId} {inbound : Bool} (hc : σ.Custody)
    (hnone : σ.peer.links = .none) (hp : σ.peer.Under p) (hlinks : p.links = .on s inbound)
    (hhooks : p.hooks = .none) (k : Holder) :
    (((σ.setPeer p).setSock s { σ.socks s with stage := .owned }).hold k).Custody where
  links := .inr ⟨s, inbound, hlinks, by simp⟩
  hooks := by
    refine .inl ⟨hhooks, ?_⟩
    intro t
    have hu := (hc.unhooked hnone).userData
    by_cases ht : t = s
    · subst ht
      simpa using hu t
    · simpa [ht] using hu t
  claimOutbound := hp.claimOutbound hc.claimOutbound
  claimInbound := hp.claimInbound hc.claimInbound
  quarantined := hp.quarantined.trans hc.quarantined

/-- A socket that is not waiting to be promoted may change its stage. -/
theorem waiting_setSock {s : SockId} {sk : Sock} (hw : σ.Waiting)
    (hs : (σ.socks s).stage ≠ .promoting ∨ σ.promotion = .inside) {p : Peer} {k : Holder} :
    (((σ.setPeer p).setSock s sk).hold k).Waiting := by
  intro t connectionId ht
  have hstage := hw t connectionId ht
  rcases hs with hs | hs
  · have hne : t ≠ s := fun h => hs (h ▸ hstage)
    simpa [hne] using hstage
  · simp [hs] at ht

theorem waiting_sameStage {s : SockId} (sk : Sock) (hw : σ.Waiting)
    (hs : sk.stage = (σ.socks s).stage) {p : Peer} {k : Holder} :
    (((σ.setPeer p).setSock s sk).hold k).Waiting := by
  intro t connectionId ht
  have hstage := hw t connectionId ht
  by_cases hne : t = s
  · subst hne
    simpa [hs] using hstage
  · simpa [hne] using hstage

/-! ## Giving the lock back -/

/-- Nobody holds the lock any more. -/
theorem unlock_control (hlock : τ.lock = none) (hcustody : τ.Custody) (hwaiting : τ.Waiting)
    (hprovisional : τ.Provisional) (hstop : τ.StopOk) : τ.Control :=
  ⟨hcustody, fun k hk => by simp [hlock] at hk, hwaiting, hprovisional, hstop⟩

/-- The lock is given back by a thread that a stop has not cancelled, since it is inside. -/
theorem unlock_stopOk (hs : σ.StopOk) (hlock : τ.lock = none) (hpeer : τ.peer = σ.peer)
    (hstop : τ.stop = σ.stop) (hstays : σ.Stays τ) : τ.StopOk :=
  hs.step hstop (hpeer ▸ rfl) (hpeer ▸ id) (fun _ => hstays) fun ht hr =>
    ⟨hpeer ▸ (hs.stopped ht hr).1, fun k hk => by simp [hlock] at hk⟩

theorem stays_refl (σ : State) : σ.Stays σ := ⟨id, id, id, id, id⟩

theorem connectReturn_control {caller : Caller} {failed : Bool} {greet : Option SockId}
    (hc : σ.Control) (hl : σ.lock = some (.connectReturn caller failed greet))
    (pc : Option DialPc) :
    { σ.setCaller caller pc with lock := none }.Control := by
  have hin := (hc.holder _ hl).2
  refine unlock_control rfl (hc.custody.congr (setCaller_peer _ _ _) (setCaller_socks _ _ _)) ?_ ?_
    (unlock_stopOk hc.stop rfl (setCaller_peer _ _ _) (setCaller_stop _ _ _) ?_)
  · cases caller <;> exact hc.waiting
  · cases caller <;> exact hc.provisional
  · cases caller with
    | retry =>
      exact { stays_refl σ with retry := fun h => by simp [Inside, Holder.thread, h.1] at hin }
    | admin => exact { stays_refl σ with }
    | outbound =>
      refine { stays_refl σ with outbound := fun h => ?_ }
      simp [Inside, Holder.thread, h.1] at hin

/-- A thread that is inside gives the lock back and goes on to another point. -/
theorem outboundUnlock_control {post : OutboundPost} (hc : σ.Control)
    (hl : σ.lock = some (.outboundUnlock post)) :
    { σ with lock := none, outbound := .post post }.Control := by
  have hin := (hc.holder _ hl).2
  refine unlock_control rfl (hc.custody.congr rfl rfl) hc.waiting hc.provisional
    (unlock_stopOk hc.stop rfl rfl rfl ?_)
  exact { stays_refl σ with outbound := fun h => by simp [Inside, Holder.thread, h.1] at hin }

theorem inboundUnlock_control (hc : σ.Control) (hl : σ.lock = some .inboundUnlock) :
    { σ with lock := none, inbound := .idle }.Control := by
  have hin := (hc.holder _ hl).2
  refine unlock_control rfl (hc.custody.congr rfl rfl) hc.waiting hc.provisional
    (unlock_stopOk hc.stop rfl rfl rfl ?_)
  exact { stays_refl σ with inbound := fun h => by simp [Inside, Holder.thread, h.1] at hin }

theorem promoteUnlock_control (hc : σ.Control) (hl : σ.lock = some .promoteUnlock) :
    { σ with lock := none, promotion := .take }.Control := by
  have hin := (hc.holder _ hl).2
  have htemp : σ.peer.tempPeer ≠ true := fun ht => by
    simp [Inside, Holder.thread, (hc.provisional ht).1] at hin
  refine unlock_control rfl (hc.custody.congr rfl rfl) (fun _ _ h => (by cases h))
    (fun ht => absurd ht htemp) (unlock_stopOk hc.stop rfl rfl rfl ?_)
  exact { stays_refl σ with promotion := fun h => by simp [Inside, Holder.thread, h.1] at hin }

theorem bootstrapUnlock_control (hc : σ.Control) (hl : σ.lock = some .bootstrapUnlock) :
    { σ with lock := none, bootstrap := .idle }.Control := by
  have hin := (hc.holder _ hl).2
  refine unlock_control rfl (hc.custody.congr rfl rfl) hc.waiting hc.provisional
    (unlock_stopOk hc.stop rfl rfl rfl ?_)
  exact { stays_refl σ with bootstrap := fun h => by simp [Inside, Holder.thread, h.1] at hin }

/-- The stop is through with the sockets. -/
theorem stopUnlock_control (hc : σ.Control)
    (hl : σ.lock = some (.stopUnlock false)) :
    { σ with lock := none, stop := .finish false }.Control := by
  obtain ⟨⟨-, hlinks⟩, hin⟩ := hc.holder _ hl
  have hs := hc.stop
  have hr : 5 < σ.stop.rank := by
    rw [show σ.stop = .inside from hin]
    decide
  refine unlock_control rfl (hc.custody.congr rfl rfl) hc.waiting hc.provisional ?_
  exact ⟨fun _ => hs.stopping (by omega), fun _ => hs.retry (by omega),
    fun _ => hs.outbound (by omega), fun _ => hs.inbound (by omega),
    fun ht _ => hs.bootstrap ht (by omega), fun ht _ => hs.promotion ht hr,
    by simp, fun _ _ => ⟨hlinks, by simp⟩⟩

/-- A provisional peer is not stopped as a configured one is. -/
theorem provisional_stopOk (hs : σ.StopOk) (htemp : τ.peer.tempPeer = true)
    (hrank : τ.stop.rank = σ.stop.rank)
    (hfinish : ∀ failed, τ.stop = .finish failed → σ.stop = .finish failed)
    (htcp : σ.peer.tcpStopping = true → τ.peer.tcpStopping = true)
    (hstays : σ.peer.tcpStopping = true → σ.Stays τ) : τ.StopOk := by
  have stays (hr : 0 < σ.stop.rank) := hstays (hs.stopping hr)
  constructor
  · exact hrank ▸ fun hr => htcp (hs.stopping hr)
  · exact hrank ▸ fun hr => (stays (by omega)).retry (hs.retry hr)
  · exact hrank ▸ fun hr => (stays (by omega)).outbound (hs.outbound hr)
  · exact hrank ▸ fun hr => (stays (by omega)).inbound (hs.inbound hr)
  · simp [htemp]
  · simp [htemp]
  · exact fun failed h => hs.finish failed (hfinish failed h)
  · simp [htemp]

theorem destroyed_control (hc : σ.Control)
    (hl : σ.lock = some (.destroyed false)) :
    { σ.setPeer { σ.peer with streamWq := false } with
      lock := none, stop := .done }.Control := by
  obtain ⟨⟨-, htemp⟩, hin⟩ := hc.holder _ hl
  have hs := hc.stop
  have hr : 5 < σ.stop.rank := by
    rw [show σ.stop = .inside from hin]
    decide
  refine unlock_control rfl ?_ hc.waiting hc.provisional ?_
  · exact (custody_setPeer (p := { σ.peer with streamWq := false }) hc.custody
      (by simp [Peer.under_iff, Peer.noNewWork_iff]) rfl rfl .installFail).congr rfl rfl
  · refine ⟨fun _ => hs.stopping (by omega), fun _ => hs.retry (by omega),
      fun _ => hs.outbound (by omega), fun _ => hs.inbound (by omega), ?_, ?_, by simp, ?_⟩ <;>
      simp [htemp]

theorem installFinish_control {s : SockId} (hc : σ.Control)
    (hl : σ.lock = some (.installFinish s)) (skState : TcpState) :
    { σ.setPeer (σ.peer.finishInit skState) with lock := none }.Control := by
  have htemp := (hc.holder _ hl).2
  have hp := Peer.finishInit_under σ.peer skState
  have hkeep : (σ.peer.finishInit skState).links = σ.peer.links ∧
      (σ.peer.finishInit skState).hooks = σ.peer.hooks := by
    unfold Peer.finishInit
    split <;> exact ⟨rfl, rfl⟩
  refine unlock_control rfl
    ((custody_setPeer hc.custody hp hkeep.1 hkeep.2 .installFail).congr rfl rfl) hc.waiting ?_ ?_
  · exact hc.provisional.step hp.tempPeer hp.promotions fun h _ => h
  exact provisional_stopOk hc.stop (hp.tempPeer.trans htemp) rfl (fun _ h => h)
    hp.tcpStopping fun hs => .of_noNewWork (hp.work hs) id id id id id

theorem installFail_control (hc : σ.Control) (hl : σ.lock = some .installFail) :
    { σ with lock := none, stop := if σ.stop = StopPc.idle then .begin else σ.stop }.Control := by
  have htemp := (hc.holder _ hl).2
  refine unlock_control rfl (hc.custody.congr rfl rfl) hc.waiting hc.provisional
    (provisional_stopOk hc.stop htemp ?_ ?_ id fun _ => { stays_refl σ with })
  · dsimp only
    split
    · rename_i h
      rw [h]
      rfl
    · rfl
  · intro failed
    dsimp only
    split <;> simp

theorem handoverUnlock_control (hc : σ.Control) :
    { σ with lock := none }.Control :=
  unlock_control rfl (hc.custody.congr rfl rfl) hc.waiting hc.provisional
    (unlock_stopOk hc.stop rfl rfl rfl { stays_refl σ with })

theorem handoverDetach_control (hc : σ.Control) (hl : σ.lock = some .handoverDetach) :
    { σ.setPeer σ.peer.handoverDetach with lock := none }.Control := by
  obtain ⟨⟨⟨s, hlinks⟩, hhooks, -, -⟩, htemp⟩ := hc.holder _ hl
  have hp : σ.peer.Under σ.peer.handoverDetach := by
    simp [Peer.under_iff, Peer.noNewWork_iff, Peer.handoverDetach, Removal.clear]
  refine unlock_control rfl ?_ hc.waiting hc.provisional ?_
  · exact
      { links := .inl (by simp [Peer.handoverDetach, hlinks, Links.on, Links.none])
        hooks := .inl ⟨hhooks, (hc.custody.unhooked_of_hooks hhooks).userData⟩
        claimOutbound := hp.claimOutbound hc.custody.claimOutbound
        claimInbound := hp.claimInbound hc.custody.claimInbound
        quarantined := hc.custody.quarantined }
  · exact provisional_stopOk hc.stop htemp rfl (fun _ h => h) hp.tcpStopping fun hs =>
      .of_noNewWork (hp.work hs) id id id id id

/-! ## Every move -/

/-- A promotion that finds a socket claims its removal. -/
theorem closed_promoteClaim {p : Peer} {s : SockId} {inbound : Bool} (h : p.links = .on s inbound) :
    p.promoteClaim.Closed := by
  cases inbound with
  | false => exact .inr (.inr (.inl (by simp [Peer.promoteClaim, h, Links.on])))
  | true => exact .inr (.inr (.inr (by simp [Peer.promoteClaim, h, Links.on])))

/-- Behind both cancellations the plan is carried out. -/
theorem plan_next {plan : Plan} (hc : σ.Custody) (hp : plan.Ok σ) (hq : σ.Quiet) :
    plan.next.Ok σ := by
  cases plan with
  | detach s owner => exact ⟨hp.1, hp.2.1, hp.2.2, hq⟩
  | promote new i o =>
    obtain ⟨hnew, s, inbound, hlinks, rfl, rfl⟩ := hp
    cases inbound with
    | false => simpa [hlinks, Links.on, Plan.next, Holder.Ok, Owner.Ok, Owner.onInbound] using
        ⟨hnew, hq⟩
    | true => simpa [hlinks, Links.on, Plan.next, Holder.Ok, Owner.Ok, Owner.onInbound] using
        ⟨hnew, hq⟩
  | stop o i => exact ⟨hp, hq⟩
  | destroy s =>
    cases s with
    | none => exact ⟨rfl, hp.2⟩
    | some s =>
      exact ⟨hc.on_socketOf (show σ.peer.socketOf true = _ from hp.1.symm), hp.2, by simp, hq⟩
  | handover s => exact ⟨hp, hq⟩

theorem plan_next_thread (plan : Plan) : plan.next.thread = plan.thread := by
  cases plan with
  | promote new i o => cases i <;> cases o <;> rfl
  | destroy s => cases s <;> rfl
  | _ => rfl

/-- Once its socket is released, the owner knows that the peer has none. -/
theorem owner_next {s : SockId} {owner : Owner} (hlinks : σ.peer.links = .none)
    (ho : owner.Ok σ) : (owner.next s false).Ok σ ∧ (owner.next s false).thread = owner.thread := by
  cases owner with
  | promoteInbound new old =>
    obtain ⟨rfl, hnew⟩ := ho
    exact ⟨⟨hlinks, hnew⟩, rfl⟩
  | promoteOutbound new => exact ⟨⟨hlinks, ho⟩, rfl⟩
  | stopOutbound other =>
    obtain rfl := ho
    exact ⟨⟨rfl, hlinks⟩, rfl⟩
  | stopInbound failed =>
    obtain rfl := ho
    exact ⟨⟨rfl, hlinks⟩, rfl⟩
  | unwind caller => exact ⟨hlinks, rfl⟩
  | outbound retryNeeded => exact ⟨rfl, rfl⟩
  | inbound => exact ⟨rfl, rfl⟩
  | rollback => exact ⟨trivial, rfl⟩
  | destroy => exact ⟨⟨rfl, ho⟩, rfl⟩

theorem custody_reset (hc : σ.Custody) {s : SockId} {inbound : Bool}
    (hlinks : σ.peer.links = .on s inbound) (k : Holder) :
    (((σ.setPeer { σ.peer with hooks := .none }).setSock s
      { σ.socks s with userData := none }).hold k).Custody where
  links := by
    refine hc.links.imp id ?_
    rintro ⟨t, b, hl, ht⟩
    refine ⟨t, b, hl, ?_⟩
    by_cases hts : t = s
    · subst hts
      simpa using ht
    · simpa [hts] using ht
  hooks := by
    refine .inl ⟨rfl, ?_⟩
    intro t
    by_cases hts : t = s
    · simp [hts]
    · rcases hc.hooks with hu | ⟨u, b, hl, -, hu⟩
      · simpa [hts] using hu.userData t
      · obtain rfl : u = s := by
          rw [hlinks] at hl
          cases inbound <;> cases b <;> simp_all [Links.on]
        simp [hts, hu]
  claimOutbound := hc.claimOutbound
  claimInbound := hc.claimInbound
  quarantined := hc.quarantined

/-- The holder resets the callbacks of the peer's socket. -/
theorem reset_control (hc : σ.Control) (hl : σ.lock = some h) {s : SockId} {inbound : Bool}
    (hlinks : σ.peer.links = .on s inbound)
    (hok : k.Ok (((σ.setPeer { σ.peer with hooks := .none }).setSock s
      { σ.socks s with userData := none }).hold k))
    (hthread : k.thread = h.thread) (hpass : h.passing = false) :
    (((σ.setPeer { σ.peer with hooks := .none }).setSock s
      { σ.socks s with userData := none }).hold k).Control :=
  (both_under (Peer.hooks_under _ _) _ _ _).advance hc hl rfl hthread
    (custody_reset hc.custody hlinks k) hok
    (waiting_sameStage { σ.socks s with userData := none } hc.waiting rfl) (by simp [hpass])

/-- Stages are not a matter of callbacks. -/
theorem owner_reset {owner : Owner} {s : SockId} (ho : owner.Ok σ) (k : Holder) :
    owner.Ok (((σ.setPeer { σ.peer with hooks := .none }).setSock s
      { σ.socks s with userData := none }).hold k) := by
  have hstage : ∀ t, ((((σ.setPeer { σ.peer with hooks := .none }).setSock s
      { σ.socks s with userData := none }).hold k).socks t).stage = (σ.socks t).stage := by
    intro t
    by_cases ht : t = s
    · subst ht
      simp
    · simp [ht]
  cases owner <;> first | exact ho | simpa only [Owner.Ok, hstage] using ho

theorem Passes.control (hp : σ.Passes h k) (hc : σ.Control) (hl : σ.lock = some h) :
    (σ.hold k).Control := by
  obtain ⟨hok, -⟩ := hc.holder h hl
  cases hp with
  | connectDone caller failed =>
    exact hold_control hc hl trivial rfl (by cases caller <;> simp [Holder.passing])
  | publishFailed caller s => exact hold_control hc hl (.inr hok.1) rfl (by simp [Holder.passing])
  | connectSetupFailed caller s =>
    exact hold_control hc hl (.inl hok.1) rfl (by simp [Holder.passing])
  | startFailed caller s => exact hold_control hc hl (.inl hok.1) rfl (by simp [Holder.passing])
  | finishFailed caller s => exact hold_control hc hl (.inl hok.1) rfl (by simp [Holder.passing])
  | unwindUnowned caller s links => exact hold_control hc hl links rfl (by simp [Holder.passing])
  | inboundClean s links scheduled socket =>
    exact hold_control hc hl ⟨rfl, ⟨links, trivial, by simp⟩, .inr (.inr (.inr scheduled))⟩ rfl
      (by simp [Holder.passing])
  | promoteForget s =>
    exact hold_control hc hl ⟨hok.1, hok.2, trivial, fun h => absurd rfl h⟩ rfl
      (by simp [Holder.passing])
  | drained plan => exact hold_control hc hl hok.2 rfl (by simp [Holder.passing])
  | _ =>
    refine hold_control hc hl ?_ rfl (by simp [Holder.passing])
    first | exact hok | trivial

/-- What the holder may rely on, a section that only concerns the stream leaves alone. -/
theorem calm_setPeer {p : Peer} (hp : σ.peer.Keeps σ.device p) (k : Holder) :
    σ.Calm ((σ.setPeer p).hold k) :=
  ⟨hp.calm, fun _ => .refl _, fun h _ => h, fun h _ => h⟩

theorem LockedMove.control (hm : σ.LockedMove h τ) (hc : σ.Control) (hl : σ.lock = some h) :
    τ.Control := by
  obtain ⟨hok, hin⟩ := hc.holder h hl
  cases hm with
  | pass passes => exact passes.control hc hl
  | dial caller live endpoint free links =>
    refine setPeer_control hc hl (by simp [Peer.under_iff, Peer.noNewWork_iff]) rfl rfl links rfl ?_
    intro _ hstop
    simp [Peer.live, hstop] at live
  | create caller s unused =>
    exact setSock_control hc hl ⟨by simp [unused, Stage.held], rfl⟩ ⟨hok, by simp⟩ rfl rfl
  | connectPublish caller s live =>
    have hhooks := (hc.custody.unhooked hok.1).hooks
    have hunder : σ.peer.Under { σ.peer with links := .on s false } := by
      simp [Peer.under_iff, Peer.noNewWork_iff]
    exact (both_under hunder _ _ _).advance hc hl rfl rfl
      (custody_publish hc.custody hok.1 hunder rfl hhooks _) ⟨rfl, hhooks⟩
      (waiting_setSock hc.waiting (.inl (by simp [hok.2]))) (by simp [Holder.passing])
  | setup setsUp =>
    have under {s : SockId} {inbound : Bool} {k : Holder} (hk : k.thread = h.thread)
        (hpass : h.passing = false) (hlinks : σ.peer.links = .on s inbound)
        (hhooks : σ.peer.hooks = .none)
        (hok : k.Ok (((σ.setPeer { σ.peer with hooks := .on s inbound }).setSock s
          { σ.socks s with userData := some inbound }).hold k)) :=
      (both_under (Peer.hooks_under _ _) _ _ _).advance hc hl rfl hk
        (custody_setup hc.custody hlinks hhooks k) hok
        (waiting_sameStage { σ.socks s with userData := some inbound } hc.waiting rfl)
        (by simp [hpass])
    cases setsUp with
    | connect caller s => exact under rfl rfl hok.1 hok.2 ⟨hok.1, rfl⟩
    | promote s => exact under rfl rfl hok.1 hok.2 trivial
    | install s => exact under rfl rfl hok.1 hok.2 trivial
  | start caller s callback => exact setSock_control hc hl ⟨fun _ => rfl, rfl⟩ hok rfl rfl
  | connectFinish caller s first p finish =>
    obtain ⟨hunder, hlinks, hhooks⟩ := Peer.connectFinish_under finish
    exact setPeer_control hc hl hunder hlinks hhooks trivial rfl (by simp [Holder.passing])
  | unwindClaim caller s links =>
    exact setPeer_control hc hl (Peer.mark_under _ _) rfl rfl
      ⟨⟨links, trivial, by simp⟩, .inr (.inr (.inl rfl))⟩ rfl (by simp [Holder.passing])
  | unwindFinish caller =>
    split
    all_goals
      exact setPeer_control hc hl (Peer.unwindFinish_under _ _) rfl rfl trivial rfl
        (by simp [Holder.passing])
  | unwindQueue caller =>
    have hkeep : σ.peer.unwindQueue.links = σ.peer.links ∧ σ.peer.unwindQueue.hooks =
      σ.peer.hooks := by
      unfold Peer.unwindQueue
      split <;> exact ⟨rfl, rfl⟩
    exact setPeer_control hc hl (Peer.unwindQueue_under _) hkeep.1 hkeep.2 trivial rfl
      (by simp [Holder.passing])
  | connectReturn caller failed greet pc => exact connectReturn_control hc hl pc
  | outboundClean retryNeeded s links scheduled socket =>
    exact setPeer_control hc hl (Peer.outboundRemoveBegin_under _) rfl rfl
      ⟨rfl, ⟨links, trivial, by simp⟩, .inr (.inr (.inl scheduled))⟩ rfl (by simp [Holder.passing])
  | outboundStale retryNeeded reclaim =>
    exact setPeer_control hc hl (Peer.outboundRemoveBegin_under _) rfl rfl rfl rfl
      (by simp [Holder.passing])
  | outboundFinish retryNeeded reclaim =>
    exact setPeer_control hc hl (Peer.outboundRemoveFinish_under _ _) rfl rfl trivial rfl
      (by simp [Holder.passing])
  | outboundUnlock post => exact outboundUnlock_control hc hl
  | inboundFinish =>
    exact setPeer_control hc hl (Peer.inboundRemoveFinish_under _ _) rfl rfl trivial rfl
      (by simp [Holder.passing])
  | inboundUnlock => exact inboundUnlock_control hc hl
  | rearm rearms =>
    have hp := Peer.rearm_outside σ.device σ.peer σ.activeQueue
    cases rearms <;>
      exact setPeer_control hc hl hp.under hp.links hp.hooks trivial rfl (by simp [Holder.passing])
  | promoteCheck s connectionId =>
    exact setPeer_control hc hl (by simp [Peer.under_iff, Peer.noNewWork_iff]) rfl rfl hok rfl
      (by simp [Holder.passing])
  | promoteFree s links =>
    exact setPeer_control hc hl (Peer.promoteClaim_under _) rfl rfl ⟨links, hok⟩ rfl
      (by simp [Holder.passing])
  | promoteClaim s t inbound links =>
    exact setPeer_control hc hl (Peer.promoteClaim_under _) rfl rfl
      ⟨⟨hok, t, inbound, links, rfl, rfl⟩, closed_promoteClaim links⟩ rfl (by simp [Holder.passing])
  | promotePublish s =>
    have hunder := Peer.promotePublish_under σ.peer s
    have hhooks := (hc.custody.unhooked hok.1).hooks
    have hlinks : (σ.peer.promotePublish s).links = .on s true := by
      simp [Peer.promotePublish, hok.1, Links.on, Links.none]
    exact (both_under hunder _ _ _).advance hc hl rfl rfl
      (custody_publish hc.custody hok.1 hunder hlinks hhooks _) ⟨hlinks, hhooks⟩
      (waiting_setSock hc.waiting (.inr hin)) (by simp [Holder.passing])
  | promoteUnlock => exact promoteUnlock_control hc hl
  | bootstrapTake k next =>
    refine setPeer_control hc hl
      (by simp [Peer.under_iff, Peer.noNewWork_iff, Peer.takeBootstrap]) rfl rfl ?_ ?_
      (by simp [Holder.passing])
    · rcases next with rfl | ⟨s, rfl⟩ <;> trivial
    · rcases next with rfl | ⟨s, rfl⟩ <;> rfl
  | bootstrapUnlock => exact bootstrapUnlock_control hc hl
  | stopReclaim =>
    exact setPeer_control hc hl (Peer.stopReclaim_under _) rfl rfl
      ⟨rfl, ⟨rfl, rfl⟩, .inr (.inr (.inl rfl))⟩ rfl (by simp [Holder.passing])
  | stopPurgeNone links =>
    exact setPeer_control hc hl (Peer.purgeSendQueue_under _) rfl rfl ⟨rfl, links⟩ rfl
      (by simp [Holder.passing])
  | stopPurge s inbound links =>
    have hq : ((σ.setPeer σ.peer.purgeSendQueue).hold
        (.reset s (if inbound then .stopInbound false else .stopOutbound none))).Quiet :=
      ⟨hok.2.1, hok.2.2, hok.2.3, hok.2.4, hok.2.5⟩
    refine setPeer_control hc hl (Peer.purgeSendQueue_under _) rfl rfl ?_ ?_
      (by simp [Holder.passing])
    · cases inbound with
      | false => exact ⟨links, rfl, by simp, hq⟩
      | true => exact ⟨links, rfl, by simp, hq⟩
    · cases inbound <;> rfl
  | stopUnlock => exact stopUnlock_control hc hl
  | installData s =>
    have hp := Peer.wgTcpDataReady_outside σ.device σ.peer
    exact setPeer_control hc hl hp.under hp.links hp.hooks trivial rfl (by simp [Holder.passing])
  | installFinish s => exact installFinish_control hc hl _
  | installFail => exact installFail_control hc hl
  | destroyed => exact destroyed_control hc hl
  | handoverNothing s => exact handoverUnlock_control hc
  | handoverClaim s links =>
    exact setPeer_control hc hl (by simp [Peer.under_iff, Peer.noNewWork_iff, Removal.mark]) rfl rfl
      ⟨rfl, ⟨links, rfl⟩, .inl rfl⟩ rfl (by simp [Holder.passing])
  | handoverReset s callback =>
    obtain ⟨⟨hlinks, hdead⟩, hquiet⟩ := hok
    exact reset_control hc hl hlinks
      ⟨⟨s, hlinks⟩, rfl, hdead, hquiet.1, hquiet.2, hquiet.3, hquiet.4, hquiet.5⟩ rfl rfl
  | handoverDetach => exact handoverDetach_control hc hl
  | cancelRead plan idle =>
    have hp := Peer.keeps_stream σ.device σ.peer { σ.peer.read with work := false } σ.peer.write
      σ.peer.sendQueue σ.peer.parser (by simp) id
    have hcalm := calm_setPeer hp (.cancelWrite plan)
    exact setPeer_control hc hl hp.under rfl rfl
      ⟨hcalm.plan hok.1, hcalm.peer.closed hok.2, idle, rfl⟩ rfl (by simp [Holder.passing])
  | cancelWrite plan idle =>
    have hp := Peer.keeps_stream σ.device σ.peer σ.peer.read { σ.peer.write with work := false }
      σ.peer.sendQueue σ.peer.parser id (by simp)
    have hcalm := calm_setPeer hp (.clearFlags plan)
    exact setPeer_control hc hl hp.under rfl rfl
      ⟨hcalm.plan hok.1, hcalm.peer.closed hok.2.1, hok.2.2.1, hok.2.2.2, idle, rfl⟩ rfl
      (by simp [Holder.passing])
  | clearFlags plan =>
    have hp : σ.peer.Keeps σ.device (plan.clear σ.peer) := by
      cases plan <;>
        simp +contextual [Plan.clear, Peer.stopClear, Peer.clearStreamFlags, Peer.keeps_iff,
          Peer.noNewWork_iff, Removal.Grows]
    have hcalm := calm_setPeer hp plan.next
    have hcustody := custody_setPeer hc.custody hp.under hp.links hp.hooks plan.next
    exact setPeer_control hc hl hp.under hp.links hp.hooks
      (plan_next hcustody (hcalm.plan hok.1) (hcalm.quiet hok.2)) (plan_next_thread plan)
      (by simp [Holder.passing])
  | reset s owner callback =>
    obtain ⟨hlinks, ho, -, hquiet⟩ := hok
    exact reset_control hc hl hlinks
      ⟨hlinks, rfl, owner_reset ho _, fun _ => ⟨hquiet.1, hquiet.2, hquiet.3, hquiet.4, hquiet.5⟩⟩
      rfl rfl
  | release s owner =>
    obtain ⟨hlinks, hhooks, ho, -⟩ := hok
    refine (setPeer_under (by simp [Peer.under_iff, Peer.noNewWork_iff]) _).advance hc hl rfl rfl
      ?_ ⟨rfl, ?_⟩ hc.waiting (by simp [Holder.passing])
    · exact
      { links := .inl rfl
        hooks := .inl ⟨hhooks, (hc.custody.unhooked_of_hooks hhooks).userData⟩
        claimOutbound := hc.custody.claimOutbound
        claimInbound := hc.custody.claimInbound
        quarantined := hc.custody.quarantined }
    · cases owner <;> exact ho
  | purge s owner =>
    exact setPeer_control hc hl (Peer.purgeSendQueue_under _) rfl rfl
      ⟨hok.1, by cases owner <;> exact hok.2⟩ rfl (by simp [Holder.passing])
  | shutdown s owner =>
    have hsk : (σ.socks s).Calm { σ.socks s with skState := .close } := ⟨fun _ => rfl, rfl⟩
    have hcalm := State.Calm.mk (σ := σ) (τ := (σ.setSock s { σ.socks s with
      skState := .close }).hold (owner.next s false)) (Peer.Outside.refl σ.device σ.peer).calm
      hsk.update (fun h _ => h) (fun h _ => h)
    obtain ⟨hnext, hthread⟩ := owner_next (s := s) hok.1 hok.2
    exact setSock_control hc hl hsk (hcalm.holder hnext) hthread rfl

end State

end WgTcp
