import WgTcp.Peer.Machine

/-!
# Who owns the socket

A peer has at most one socket, in one direction; its callbacks are installed
on that socket or nowhere; and the thread that holds `tcp_socket_lock` knows
which, at every point of its way. Before it detaches a socket, the removal is
claimed and both stream workers are gone, so that resetting and releasing the
socket never fail. Past the cancellations of a stop, nothing but the stop runs.

`State.Control` is that invariant, and `Reaches.control` shows it of every
state that a peer gets into.
-/

namespace WgTcp

/-! ## Threads under the lock -/

/-- The thread that a holder's program counter belongs to. -/
inductive Holding where
  | dial (caller : Caller)
  | outbound
  | inbound
  | promotion
  | bootstrap
  | stop
  /-- The listener or a promotion, at work on a provisional peer. -/
  | provisional
deriving Repr, DecidableEq

def Owner.thread : Owner → Holding
  | .unwind caller => .dial caller
  | .outbound _ => .outbound
  | .inbound => .inbound
  | .promoteInbound _ _ | .promoteOutbound _ | .rollback => .promotion
  | .stopOutbound _ | .stopInbound _ | .destroy => .stop

def Plan.thread : Plan → Holding
  | .detach _ owner => owner.thread
  | .promote _ _ _ => .promotion
  | .stop _ _ | .destroy _ => .stop
  | .handover _ => .provisional

def Holder.thread : Holder → Holding
  | .connectGate caller | .connectCreate caller | .connectPublish caller _
  | .connectSetup caller _ | .connectStart caller _ | .connectFinish caller _
  | .unwind caller _ | .unwindFinish caller | .unwindAbort caller | .unwindQueue caller
  | .connectReturn caller _ _ => .dial caller
  | .outboundView _ | .outboundFinish _ _ _ | .outboundRearm _ | .outboundUnlock _ => .outbound
  | .inboundView | .inboundFinish _ | .inboundRearm | .inboundUnlock => .inbound
  | .promoteCheck _ _ | .promoteDetach _ | .promoteClaim _ | .promotePublish _ | .promoteSetup _
  | .promoteForget _ | .promoteRearm | .promoteUnlock => .promotion
  | .bootstrapTake | .bootstrapGreet _ | .bootstrapUnlock => .bootstrap
  | .stopReclaim | .stopPurge _ _ | .stopUnlock _ | .destroyed _ => .stop
  | .installSetup _ | .installList _ | .installData _ | .installFinish _ | .installFail
  | .handoverClaim _ | .handoverReset _ | .handoverDetach => .provisional
  | .drain _ plan _ | .cancelRead plan | .cancelWrite plan | .clearFlags plan => plan.thread
  | .reset _ owner | .release _ owner | .purge _ owner | .shutdown _ owner => owner.thread

def State.Inside (σ : State) : Holding → Prop
  | .dial caller => σ.caller caller = some .inside
  | .outbound => σ.outbound = .inside
  | .inbound => σ.inbound = .inside
  | .promotion => σ.promotion = .inside
  | .bootstrap => σ.bootstrap = .inside
  | .stop => σ.stop = .inside
  | .provisional => σ.peer.tempPeer = true

/-! ## What the holder knows -/

/-- The stream is closed and neither worker is queued or running. -/
structure State.Quiet (σ : State) : Prop where
  closed : σ.peer.Closed
  reader : σ.reader = .idle
  readWork : σ.peer.read.work = false
  writer : σ.writer = .idle
  writeWork : σ.peer.write.work = false

/-- The direction of the socket that is torn down. -/
def Owner.onInbound : Owner → Bool
  | .unwind _ | .outbound _ | .promoteOutbound _ | .stopOutbound _ => false
  | .inbound | .promoteInbound _ _ | .rollback | .stopInbound _ | .destroy => true

/-- There is no second socket to tear down, and the one to publish is waiting. -/
def Owner.Ok (σ : State) : Owner → Prop
  | .promoteInbound new old => old = none ∧ (σ.socks new).stage = .promoting
  | .promoteOutbound new => (σ.socks new).stage = .promoting
  | .stopOutbound other => other = none
  | .stopInbound failed => failed = false
  | .destroy => σ.peer.tempPeer = true
  | _ => True

def Plan.Ok (σ : State) : Plan → Prop
  | .detach s owner => σ.peer.links = .on s owner.onInbound ∧ owner.Ok σ ∧ owner ≠ .rollback
  | .promote new oldInbound oldOutbound =>
      (σ.socks new).stage = .promoting ∧ ∃ s inbound, σ.peer.links = .on s inbound ∧
        oldInbound = σ.peer.links.inboundSocket ∧ oldOutbound = σ.peer.links.outboundSocket
  | .stop outbound inbound =>
      outbound = σ.peer.links.outboundSocket ∧ inbound = σ.peer.links.inboundSocket
  | .destroy s => s = σ.peer.links.inboundSocket ∧ σ.peer.tempPeer = true
  | .handover s => σ.peer.links = .on s true ∧ σ.peer.isDead = true

def Holder.Ok (σ : State) : Holder → Prop
  | .connectCreate _ | .unwind _ none | .unwindFinish _ => σ.peer.links = .none
  | .connectPublish _ s => σ.peer.links = .none ∧ (σ.socks s).stage = .dialing
  | .connectSetup _ s => σ.peer.links = .on s false ∧ σ.peer.hooks = .none
  | .connectStart _ s | .connectFinish _ s =>
      σ.peer.links = .on s false ∧ σ.peer.hooks = .on s false
  | .unwind _ (some s) => σ.peer.links = .on s false ∨ σ.peer.links = .none
  | .unwindAbort _ => False
  | .outboundFinish _ _ failed | .inboundFinish failed => failed = false
  | .destroyed failed => failed = false ∧ σ.peer.tempPeer = true
  | .promoteCheck s _ | .promoteDetach s | .promoteClaim s => (σ.socks s).stage = .promoting
  | .promotePublish s => σ.peer.links = .none ∧ (σ.socks s).stage = .promoting
  | .promoteSetup s | .promoteForget s | .installSetup s =>
      σ.peer.links = .on s true ∧ σ.peer.hooks = .none
  | .stopPurge outbound inbound => (Plan.stop outbound inbound).Ok σ ∧ σ.Quiet
  | .stopUnlock failed => failed = false ∧ σ.peer.links = .none
  | .handoverReset s => (Plan.handover s).Ok σ ∧ σ.Quiet
  | .handoverDetach =>
      (∃ s, σ.peer.links = .on s true) ∧ σ.peer.hooks = .none ∧ σ.peer.isDead = true ∧ σ.Quiet
  | .drain _ plan cancel => cancel = true ∧ plan.Ok σ ∧ σ.peer.Closed
  | .cancelRead plan => plan.Ok σ ∧ σ.peer.Closed
  | .cancelWrite plan =>
      plan.Ok σ ∧ σ.peer.Closed ∧ σ.reader = .idle ∧ σ.peer.read.work = false
  | .clearFlags plan => plan.Ok σ ∧ σ.Quiet
  | .reset s owner =>
      σ.peer.links = .on s owner.onInbound ∧ owner.Ok σ ∧ owner ≠ .rollback ∧ σ.Quiet
  | .release s owner =>
      σ.peer.links = .on s owner.onInbound ∧ σ.peer.hooks = .none ∧ owner.Ok σ ∧
        (owner ≠ .rollback → σ.Quiet)
  | .purge _ owner | .shutdown _ owner => σ.peer.links = .none ∧ owner.Ok σ
  | _ => True

/-! ## The invariant -/

structure State.Hooked (σ : State) (s : SockId) (inbound : Bool) : Prop where
  links : σ.peer.links = .on s inbound
  hooks : σ.peer.hooks = .on s inbound
  userData : ∀ t, (σ.socks t).userData = if t = s then some inbound else none

structure State.Unhooked (σ : State) : Prop where
  hooks : σ.peer.hooks = .none
  userData : ∀ t, (σ.socks t).userData = none

structure State.Custody (σ : State) : Prop where
  links : σ.peer.links = .none ∨
    ∃ s inbound, σ.peer.links = .on s inbound ∧ (σ.socks s).stage = .owned
  hooks : σ.Unhooked ∨ ∃ s inbound, σ.Hooked s inbound
  claimOutbound : σ.peer.outboundRemove.socket.isSome → σ.peer.outboundRemove.scheduled = true
  claimInbound : σ.peer.inboundRemove.socket.isSome → σ.peer.inboundRemove.scheduled = true
  quarantined : σ.peer.tcpTeardownQuarantined = false

/-- Ownership is a matter of the peer and its sockets. -/
theorem State.Custody.congr {σ τ : State} (h : σ.Custody) (hp : τ.peer = σ.peer)
    (hs : τ.socks = σ.socks) : τ.Custody where
  links := hp ▸ hs ▸ h.links
  hooks := by
    rcases h.hooks with ⟨h, u⟩ | ⟨s, inbound, l, h, u⟩
    · exact .inl ⟨hp ▸ h, hs ▸ u⟩
    · exact .inr ⟨s, inbound, hp ▸ l, hp ▸ h, hs ▸ u⟩
  claimOutbound := hp ▸ h.claimOutbound
  claimInbound := hp ▸ h.claimInbound
  quarantined := hp ▸ h.quarantined

/-- How far a stop has come. -/
def StopPc.rank : StopPc → Nat
  | .idle | .begin => 0
  | .cancelRetry => 1
  | .cancelOutbound => 2
  | .cancelInbound => 3
  | .cancelBootstrap => 4
  | .cancelPromotion => 5
  | .wait | .inside => 6
  | .finish _ | .done => 7

/-- A call of `wg_tcp_connect` that only finds the peer stopped. -/
def Holder.passing : Holder → Bool
  | .connectGate .admin | .connectReturn .admin _ _ => true
  | _ => false

/-- Behind each cancellation of a stop, the thread is idle and its work is not queued. -/
structure State.StopOk (σ : State) : Prop where
  stopping : 0 < σ.stop.rank → σ.peer.tcpStopping = true
  retry : 1 < σ.stop.rank → σ.retry = none ∧ σ.peer.retry.work = false
  outbound : 2 < σ.stop.rank → σ.outbound = .idle ∧ σ.peer.outboundRemove.work = false
  inbound : 3 < σ.stop.rank → σ.inbound = .idle ∧ σ.peer.inboundRemove.work = false
  bootstrap : σ.peer.tempPeer = false → 4 < σ.stop.rank →
    σ.bootstrap = .idle ∧ σ.peer.tcpBootstrapWork = false
  promotion : σ.peer.tempPeer = false → 5 < σ.stop.rank →
    σ.promotion = .idle ∧ σ.peer.promotion.work = false
  finish : ∀ failed, σ.stop = .finish failed → failed = false
  stopped : σ.peer.tempPeer = false → 6 < σ.stop.rank →
    σ.peer.links = .none ∧ ∀ h, σ.lock = some h → h.passing = true

/-- The socket that a promotion waits with is its own. -/
def State.Waiting (σ : State) : Prop :=
  ∀ s connectionId, σ.promotion = .wait s connectionId → (σ.socks s).stage = .promoting

/-- A provisional peer promotes nothing. -/
def State.Provisional (σ : State) : Prop :=
  σ.peer.tempPeer = true → σ.promotion = .idle ∧ σ.peer.promotion.work = false

structure State.Control (σ : State) : Prop where
  custody : σ.Custody
  holder : ∀ h, σ.lock = some h → h.Ok σ ∧ σ.Inside h.thread
  waiting : σ.Waiting
  provisional : σ.Provisional
  stop : σ.StopOk

theorem State.control_init (tempPeer : Bool) (addressing : Addressing) :
    (State.init tempPeer addressing).Control where
  custody :=
    { links := .inl rfl
      hooks := .inl ⟨rfl, fun _ => rfl⟩
      claimOutbound := fun h => (by cases h)
      claimInbound := fun h => (by cases h)
      quarantined := rfl }
  holder := fun _ h => (by cases h)
  waiting := fun _ _ h => (by cases h)
  provisional := fun _ => ⟨rfl, rfl⟩
  stop := by constructor <;> simp [State.init, StopPc.rank]

/-! ## Steps that leave the ownership alone -/

/-- A stage that only the thread that works on the socket may change. -/
def Stage.held : Stage → Bool
  | .unused | .provisional _ => false
  | .dialing | .promoting | .owned => true

/-- What the holder of the lock may rely on, whatever the other threads do to the peer. -/
structure Peer.Calm (p q : Peer) : Prop where
  tempPeer : q.tempPeer = p.tempPeer
  isDead : p.isDead = true → q.isDead = true
  quarantined : q.tcpTeardownQuarantined = p.tcpTeardownQuarantined
  links : q.links = p.links
  hooks : q.hooks = p.hooks
  closed : p.Closed → q.Closed
  reads : q.read.work = true → p.read.work = true ∨ ¬ p.Closed
  writes : q.write.work = true → p.write.work = true ∨ ¬ p.Closed
  claimOutbound : (p.outboundRemove.socket.isSome → p.outboundRemove.scheduled = true) →
    q.outboundRemove.socket.isSome → q.outboundRemove.scheduled = true
  claimInbound : (p.inboundRemove.socket.isSome → p.inboundRemove.scheduled = true) →
    q.inboundRemove.socket.isSome → q.inboundRemove.scheduled = true
  promotions : p.tempPeer = true → q.promotion.work = true → p.promotion.work = true

theorem Peer.Keeps.closed {d : Device} {p q : Peer} (h : p.Keeps d q) (hp : p.Closed) :
    q.Closed := by
  rcases hp with hp | hp | hp | hp
  · exact .inl (h.isDead hp)
  · exact .inr (.inl (h.tcpStopping.trans hp))
  · exact .inr (.inr (.inl (h.outbound.scheduled hp)))
  · exact .inr (.inr (.inr (h.inbound.scheduled hp)))

theorem Peer.Keeps.calm {d : Device} {p q : Peer} (h : p.Keeps d q) : p.Calm q where
  tempPeer := h.tempPeer
  isDead := h.isDead
  quarantined := h.quarantined
  links := h.links
  hooks := h.hooks
  closed := h.closed
  reads := fun hq => (h.reads hq).imp_right fun ho hc => by simp [hc.streamOpen d] at ho
  writes := fun hq => (h.writes hq).imp_right fun ho hc => by simp [hc.streamOpen d] at ho
  claimOutbound := h.outbound.claim
  claimInbound := h.inbound.claim
  promotions := h.promotions

structure Sock.Calm (sk sk' : Sock) : Prop where
  stage : sk.stage.held = true → sk'.stage = sk.stage
  userData : sk'.userData = sk.userData

theorem Sock.Calm.refl (sk : Sock) : sk.Calm sk := ⟨fun _ => rfl, rfl⟩

/-- A step on one socket is calm if it is on that one. -/
theorem Sock.Calm.update {socks : SockId → Sock} {s : SockId} {sk : Sock}
    (h : (socks s).Calm sk) (t : SockId) : (socks t).Calm (Function.update socks s sk t) := by
  by_cases ht : t = s
  · subst ht
    simpa using h
  · simpa [ht] using Sock.Calm.refl (socks t)

structure State.Calm (σ τ : State) : Prop where
  peer : σ.peer.Calm τ.peer
  socks : ∀ s, (σ.socks s).Calm (τ.socks s)
  reader : σ.reader = .idle → σ.peer.read.work = false → τ.reader = .idle
  writer : σ.writer = .idle → σ.peer.write.work = false → τ.writer = .idle

namespace State.Calm

variable {σ τ : State}

theorem custody (h : σ.Calm τ) (hc : σ.Custody) : τ.Custody where
  links := by
    rw [h.peer.links]
    refine hc.links.imp_right ?_
    rintro ⟨s, inbound, hl, hs⟩
    exact ⟨s, inbound, hl, ((h.socks s).stage (by rw [hs]; rfl)).trans hs⟩
  hooks := by
    refine hc.hooks.imp ?_ ?_
    · rintro ⟨hh, hu⟩
      exact ⟨h.peer.hooks.trans hh, fun t => (h.socks t).userData.trans (hu t)⟩
    · rintro ⟨s, inbound, hl, hh, hu⟩
      exact ⟨s, inbound, h.peer.links.trans hl, h.peer.hooks.trans hh,
        fun t => (h.socks t).userData.trans (hu t)⟩
  claimOutbound := h.peer.claimOutbound hc.claimOutbound
  claimInbound := h.peer.claimInbound hc.claimInbound
  quarantined := h.peer.quarantined.trans hc.quarantined

theorem promoting (h : σ.Calm τ) {s : SockId} (hs : (σ.socks s).stage = .promoting) :
    (τ.socks s).stage = .promoting :=
  ((h.socks s).stage (by rw [hs]; rfl)).trans hs

theorem dialing (h : σ.Calm τ) {s : SockId} (hs : (σ.socks s).stage = .dialing) :
    (τ.socks s).stage = .dialing :=
  ((h.socks s).stage (by rw [hs]; rfl)).trans hs

theorem readQuiet (h : σ.Calm τ) (hc : σ.peer.Closed) (hr : σ.reader = .idle)
    (hw : σ.peer.read.work = false) : τ.reader = .idle ∧ τ.peer.read.work = false := by
  refine ⟨h.reader hr hw, ?_⟩
  by_contra hq
  rcases h.peer.reads (by simpa using hq) with hp | hp
  · simp [hw] at hp
  · exact hp hc

theorem writeQuiet (h : σ.Calm τ) (hc : σ.peer.Closed) (hr : σ.writer = .idle)
    (hw : σ.peer.write.work = false) : τ.writer = .idle ∧ τ.peer.write.work = false := by
  refine ⟨h.writer hr hw, ?_⟩
  by_contra hq
  rcases h.peer.writes (by simpa using hq) with hp | hp
  · simp [hw] at hp
  · exact hp hc

theorem quiet (h : σ.Calm τ) (hq : σ.Quiet) : τ.Quiet :=
  have hr := h.readQuiet hq.closed hq.reader hq.readWork
  have hw := h.writeQuiet hq.closed hq.writer hq.writeWork
  ⟨h.peer.closed hq.closed, hr.1, hr.2, hw.1, hw.2⟩

theorem owner (h : σ.Calm τ) {owner : Owner} (ho : owner.Ok σ) : owner.Ok τ := by
  cases owner with
  | promoteInbound new old => exact ⟨ho.1, h.promoting ho.2⟩
  | promoteOutbound new => exact h.promoting ho
  | destroy => exact h.peer.tempPeer.trans ho
  | _ => exact ho

theorem plan (h : σ.Calm τ) {plan : Plan} (hp : plan.Ok σ) : plan.Ok τ := by
  cases plan with
  | detach s owner => exact ⟨h.peer.links.trans hp.1, h.owner hp.2.1, hp.2.2⟩
  | promote new i o =>
    obtain ⟨hs, s, inbound, hl, hi, ho⟩ := hp
    exact ⟨h.promoting hs, s, inbound, h.peer.links.trans hl, h.peer.links ▸ hi, h.peer.links ▸ ho⟩
  | stop o i => simpa only [Plan.Ok, h.peer.links] using hp
  | destroy s => exact ⟨h.peer.links ▸ hp.1, h.peer.tempPeer.trans hp.2⟩
  | handover s => exact ⟨h.peer.links.trans hp.1, h.peer.isDead hp.2⟩

theorem holder (h : σ.Calm τ) {k : Holder} (hk : k.Ok σ) : k.Ok τ := by
  have hl := h.peer.links
  have hh := h.peer.hooks
  cases k with
  | connectPublish _ s => exact ⟨hl.trans hk.1, h.dialing hk.2⟩
  | unwind _ s => cases s <;> simpa only [Holder.Ok, hl] using hk
  | promoteCheck s _ => exact h.promoting hk
  | promoteDetach s => exact h.promoting hk
  | promoteClaim s => exact h.promoting hk
  | promotePublish s => exact ⟨hl.trans hk.1, h.promoting hk.2⟩
  | stopPurge o i => exact ⟨h.plan hk.1, h.quiet hk.2⟩
  | handoverReset s => exact ⟨h.plan hk.1, h.quiet hk.2⟩
  | handoverDetach =>
    exact ⟨hl ▸ hk.1, hh.trans hk.2.1, h.peer.isDead hk.2.2.1, h.quiet hk.2.2.2⟩
  | drain _ plan cancel => exact ⟨hk.1, h.plan hk.2.1, h.peer.closed hk.2.2⟩
  | cancelRead plan => exact ⟨h.plan hk.1, h.peer.closed hk.2⟩
  | cancelWrite plan =>
    exact ⟨h.plan hk.1, h.peer.closed hk.2.1, h.readQuiet hk.2.1 hk.2.2.1 hk.2.2.2⟩
  | clearFlags plan => exact ⟨h.plan hk.1, h.quiet hk.2⟩
  | reset s owner => exact ⟨hl.trans hk.1, h.owner hk.2.1, hk.2.2.1, h.quiet hk.2.2.2⟩
  | release s owner =>
    exact ⟨hl.trans hk.1, hh.trans hk.2.1, h.owner hk.2.2.1, fun ho => h.quiet (hk.2.2.2 ho)⟩
  | destroyed failed => exact ⟨hk.1, h.peer.tempPeer.trans hk.2⟩
  | purge s owner => exact ⟨hl.trans hk.1, h.owner hk.2⟩
  | shutdown s owner => exact ⟨hl.trans hk.1, h.owner hk.2⟩
  | _ => first | trivial | simpa only [Holder.Ok, hl, hh] using hk

end State.Calm

/-- A cleared work bit that no step sets stays cleared. -/
theorem eq_false_of_imp {a b : Bool} (h : b = true → a = true) (ha : a = false) : b = false := by
  cases b with
  | false => rfl
  | true => exact absurd (h rfl) (by simp [ha])

theorem State.Provisional.step {σ τ : State} (h : σ.Provisional)
    (htemp : τ.peer.tempPeer = σ.peer.tempPeer)
    (hwork : σ.peer.tempPeer = true → τ.peer.promotion.work = true → σ.peer.promotion.work = true)
    (hpc : σ.promotion = .idle → σ.peer.promotion.work = false → τ.promotion = .idle) :
    τ.Provisional := by
  intro ht
  rw [htemp] at ht
  obtain ⟨hidle, hnone⟩ := h ht
  exact ⟨hpc hidle hnone, eq_false_of_imp (hwork ht) hnone⟩

/-- A thread that a stop has cancelled stays idle. -/
structure State.Stays (σ τ : State) : Prop where
  retry : σ.retry = none ∧ σ.peer.retry.work = false →
    τ.retry = none ∧ τ.peer.retry.work = false
  outbound : σ.outbound = .idle ∧ σ.peer.outboundRemove.work = false →
    τ.outbound = .idle ∧ τ.peer.outboundRemove.work = false
  inbound : σ.inbound = .idle ∧ σ.peer.inboundRemove.work = false →
    τ.inbound = .idle ∧ τ.peer.inboundRemove.work = false
  bootstrap : σ.bootstrap = .idle ∧ σ.peer.tcpBootstrapWork = false →
    τ.bootstrap = .idle ∧ τ.peer.tcpBootstrapWork = false
  promotion : σ.promotion = .idle ∧ σ.peer.promotion.work = false →
    τ.promotion = .idle ∧ τ.peer.promotion.work = false

/-- A step of a thread other than the holder and the stop. -/
structure State.Moves (σ τ : State) : Prop extends σ.Calm τ where
  inside : ∀ t, σ.Inside t → τ.Inside t
  waiting : σ.Waiting → τ.Waiting
  provisional : σ.Provisional → τ.Provisional
  tcpStopping : σ.peer.tcpStopping = true → τ.peer.tcpStopping = true
  stays : σ.peer.tcpStopping = true → σ.Stays τ
  stop : τ.stop = σ.stop

theorem State.Moves.hold {σ τ : State} (h : σ.Moves τ) (k : Holder) : σ.Moves (τ.hold k) :=
  { h with
    inside := fun t ht => by
      have := h.inside t ht
      cases t with
      | dial caller => cases caller <;> exact this
      | _ => exact this
    stays := fun hs => { h.stays hs with } }

/-- A stop that goes on elsewhere is not disturbed; the lock is handled apart. -/
theorem State.StopOk.step {σ τ : State} (hs : σ.StopOk) (hstop : τ.stop = σ.stop)
    (htemp : τ.peer.tempPeer = σ.peer.tempPeer)
    (htcp : σ.peer.tcpStopping = true → τ.peer.tcpStopping = true)
    (hstays : σ.peer.tcpStopping = true → σ.Stays τ)
    (hstopped : σ.peer.tempPeer = false → 6 < σ.stop.rank →
      τ.peer.links = .none ∧ ∀ k, τ.lock = some k → k.passing = true) : τ.StopOk := by
  have stays (hr : 0 < σ.stop.rank) := hstays (hs.stopping hr)
  constructor
  · exact hstop ▸ fun hr => htcp (hs.stopping hr)
  · exact hstop ▸ fun hr => (stays (by omega)).retry (hs.retry hr)
  · exact hstop ▸ fun hr => (stays (by omega)).outbound (hs.outbound hr)
  · exact hstop ▸ fun hr => (stays (by omega)).inbound (hs.inbound hr)
  · exact htemp ▸ hstop ▸ fun ht hr => (stays (by omega)).bootstrap (hs.bootstrap ht hr)
  · exact htemp ▸ hstop ▸ fun ht hr => (stays (by omega)).promotion (hs.promotion ht hr)
  · exact hstop ▸ hs.finish
  · exact htemp ▸ hstop ▸ hstopped

theorem State.Moves.stopOk {σ τ : State} (h : σ.Moves τ) (hs : σ.StopOk)
    (hlock : σ.peer.tempPeer = false → 6 < σ.stop.rank →
      ∀ k, τ.lock = some k → k.passing = true) : τ.StopOk :=
  hs.step h.stop h.peer.tempPeer h.tcpStopping h.stays fun ht hr =>
    ⟨h.peer.links.trans (hs.stopped ht hr).1, hlock ht hr⟩

theorem State.Calm.waiting {σ τ : State} (h : σ.Calm τ) (hpc : τ.promotion = σ.promotion)
    (hw : σ.Waiting) : τ.Waiting :=
  fun s connectionId hs => h.promoting (hw s connectionId (hpc.symm.trans hs))

theorem State.Moves.control {σ τ : State} (h : σ.Moves τ) (hlock : τ.lock = σ.lock)
    (hc : σ.Control) : τ.Control where
  custody := h.custody hc.custody
  holder := by
    intro k hk
    obtain ⟨hok, hin⟩ := hc.holder k (hlock ▸ hk)
    exact ⟨h.holder hok, h.inside _ hin⟩
  waiting := h.waiting hc.waiting
  provisional := h.provisional hc.provisional
  stop := h.stopOk hc.stop fun ht hr => hlock ▸ (hc.stop.stopped ht hr).2

/-- A thread takes the lock. -/
theorem State.Moves.acquire {σ τ : State} (h : σ.Moves τ) {k : Holder} (hlock : τ.lock = some k)
    (hok : k.Ok τ) (hin : τ.Inside k.thread)
    (hpass : σ.peer.tempPeer = false → 6 < σ.stop.rank → k.passing = true) (hc : σ.Control) :
    τ.Control where
  custody := h.custody hc.custody
  holder := by
    intro k' hk'
    obtain rfl : k = k' := Option.some.inj (hlock.symm.trans hk')
    exact ⟨hok, hin⟩
  waiting := h.waiting hc.waiting
  provisional := h.provisional hc.provisional
  stop := by
    refine h.stopOk hc.stop ?_
    intro ht hr k' hk'
    obtain rfl : k = k' := Option.some.inj (hlock.symm.trans hk')
    exact hpass ht hr

/-- A step of neither the holder nor another thread on its way to the lock. -/
structure State.Steady (σ τ : State) : Prop extends σ.Moves τ where
  lock : τ.lock = σ.lock

theorem State.Steady.control {σ τ : State} (h : σ.Steady τ) (hc : σ.Control) : τ.Control :=
  h.toMoves.control h.lock hc

theorem State.Stays.of_noNewWork {σ τ : State} (h : σ.peer.NoNewWork τ.peer)
    (hretry : σ.retry = none → τ.retry = none)
    (houtbound : σ.outbound = .idle → τ.outbound = .idle)
    (hinbound : σ.inbound = .idle → τ.inbound = .idle)
    (hbootstrap : σ.bootstrap = .idle → τ.bootstrap = .idle)
    (hpromotion : σ.promotion = .idle → τ.promotion = .idle) : σ.Stays τ where
  retry := And.imp hretry (eq_false_of_imp h.retry)
  outbound := And.imp houtbound (eq_false_of_imp h.outbound)
  inbound := And.imp hinbound (eq_false_of_imp h.inbound)
  bootstrap := And.imp hbootstrap (eq_false_of_imp h.bootstrap)
  promotion := And.imp hpromotion (eq_false_of_imp h.promotion)

/-- The usual way to see that a step is steady. -/
theorem State.Steady.of_keeps {σ τ : State} (hpeer : σ.peer.Keeps σ.device τ.peer)
    (hsocks : ∀ s, (σ.socks s).Calm (τ.socks s))
    (hreader : σ.reader = .idle → σ.peer.read.work = false → τ.reader = .idle := by
      exact fun h _ => h)
    (hwriter : σ.writer = .idle → σ.peer.write.work = false → τ.writer = .idle := by
      exact fun h _ => h)
    (hlock : τ.lock = σ.lock := by rfl) (hretry : τ.retry = σ.retry := by rfl)
    (hadmin : σ.admin = some .inside → τ.admin = some .inside := by exact id)
    (houtbound : τ.outbound = σ.outbound := by rfl) (hinbound : τ.inbound = σ.inbound := by rfl)
    (hbootstrap : τ.bootstrap = σ.bootstrap := by rfl)
    (hpromotion : τ.promotion = σ.promotion := by rfl) (hstop : τ.stop = σ.stop := by rfl) :
    σ.Steady τ where
  peer := hpeer.calm
  socks := hsocks
  reader := hreader
  writer := hwriter
  inside := by
    intro t ht
    cases t with
    | dial caller =>
      cases caller with
      | retry => exact hretry.trans ht
      | admin => exact hadmin ht
      | outbound => simpa only [State.Inside, State.caller, houtbound] using ht
    | outbound => exact houtbound.trans ht
    | inbound => exact hinbound.trans ht
    | promotion => exact hpromotion.trans ht
    | bootstrap => exact hbootstrap.trans ht
    | stop => exact hstop.trans ht
    | provisional => exact hpeer.tempPeer.trans ht
  waiting := fun hw s connectionId hs =>
    have hp := hw s connectionId (hpromotion.symm.trans hs)
    ((hsocks s).stage (by rw [hp]; rfl)).trans hp
  provisional := fun h => h.step hpeer.tempPeer hpeer.promotions fun hidle _ =>
    hpromotion.trans hidle
  tcpStopping := fun h => hpeer.tcpStopping.trans h
  stays := fun h => .of_noNewWork (hpeer.stopped h) hretry.trans houtbound.trans hinbound.trans
    hbootstrap.trans hpromotion.trans
  stop := hstop
  lock := hlock

end WgTcp
