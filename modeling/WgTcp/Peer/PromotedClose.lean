import WgTcp.Peer.Closing
import WgTcp.Peer.Roaming

/-!
# Closes of promoted carriers

Between the provisional peer, whose callbacks a promotion takes off the accepted
socket, and the configured peer, whose callbacks it puts on, nobody is told of a
state change, and the promotion does not look at the state itself. A carrier
that is closed by then is published as an established one.

`promoted_close_noticed` is about the promotions that install their callbacks on
an open socket: then a close is claimed by name. The invariants behind it are
that a stop and a teardown in progress hold a claim on the inbound socket, and
that an accepted socket is either established or closed.
-/

namespace WgTcp

/-! ## Teardowns of the inbound socket -/

def Owner.tearsInbound : Owner → Bool
  | .inbound | .promoteInbound _ _ | .stopInbound _ => true
  | _ => false

def Plan.tearsInbound : Plan → Bool
  | .detach _ owner => owner.tearsInbound
  | .promote _ oldInbound _ => oldInbound.isSome
  | .stop _ inbound => inbound.isSome
  | _ => false

def Holder.tearsInbound : Holder → Bool
  | .drain _ plan _ | .cancelRead plan | .cancelWrite plan | .clearFlags plan => plan.tearsInbound
  | .stopPurge _ inbound => inbound.isSome
  | .reset _ owner | .release _ owner => owner.tearsInbound
  | _ => false

theorem Plan.next_tearsInbound (plan : Plan) (h : plan.next.tearsInbound = true) :
    plan.tearsInbound = true := by
  cases plan with
  | promote new oldInbound oldOutbound =>
    cases oldInbound <;> cases oldOutbound <;> exact h
  | destroy s => cases s <;> exact h
  | _ => exact h

theorem Owner.next_tearsInbound {owner : Owner} {s : SockId}
    (h : (owner.next s false).tearsInbound = true) :
    ∃ other, owner = .stopOutbound (some other) := by
  cases owner with
  | promoteInbound new old =>
    cases old with
    | none => cases h
    | some o =>
      simp only [Owner.next, Bool.false_eq_true, if_false] at h
      split at h <;> cases h
  | stopOutbound other =>
    cases other with
    | none => cases h
    | some o => exact ⟨o, rfl⟩
  | _ => cases h

theorem Holder.entry_tearsInbound {k : Holder} (hk : k.entry = true) : k.tearsInbound = false := by
  cases k with
  | drain sockets plan cancel =>
    cases plan with
    | destroy => rfl
    | _ => cases hk
  | _ => first | rfl | cases hk

/-- The socket that a promotion has not given its callbacks. -/
def Holder.publishes : Holder → Option SockId
  | .promotePublish s | .promoteSetup s | .promoteForget s | .release s .rollback => some s
  | _ => none

theorem Plan.next_publishes (plan : Plan) {s : SockId} (h : plan.next.publishes = some s) :
    plan.next = .promotePublish s := by
  cases plan with
  | promote new oldInbound oldOutbound =>
    cases oldInbound <;> cases oldOutbound <;> cases h
    rfl
  | destroy s => cases s <;> cases h
  | _ => cases h

theorem Owner.next_publishes {owner : Owner} {s t : SockId}
    (h : (owner.next s false).publishes = some t) : owner.next s false = .promotePublish t := by
  unfold Owner.next at h ⊢
  repeat' split at h
  all_goals first | (cases h; done) | (obtain rfl := Option.some.inj h; simp_all)

theorem TcpState.closed_of_opened {before after : TcpState}
    (hbefore : before = .established ∨ before.closed = true)
    (h : before.reaches after = true) : after.closed = true := by
  rcases hbefore with rfl | hclosed
  · cases after <;> first | rfl | cases h
  · exact closed_of_reaches hclosed h

namespace State

variable {σ τ : State} {h k : Holder} {s : SockId}

/-- A stop and a teardown in progress hold a claim on the inbound socket. -/
structure Watched (σ : State) : Prop where
  dead : σ.peer.isDead = true → σ.peer.tcpStopping = true
  stopping : σ.peer.tcpStopping = true → σ.peer.links.inboundSocket.isSome = true →
    σ.lock.any Holder.promotes = true ∨ σ.peer.inboundRemove.scheduled = true
  torn : σ.lock.any Holder.tearsInbound = true → σ.peer.inboundRemove.scheduled = true

theorem watched_init (addressing : Addressing) : (State.init false addressing).Watched :=
  ⟨(fun h => by cases h), (fun h => by cases h), (fun h => by cases h)⟩

theorem Watched.keep (hi : σ.Watched) (htemp : σ.peer.tempPeer = false)
    (hk : σ.peer.Keeps σ.device τ.peer) (hlock : τ.lock = σ.lock) : τ.Watched where
  dead := by
    rw [hk.dead htemp, hk.tcpStopping]
    exact hi.dead
  stopping := by
    rw [hk.tcpStopping, hk.links, hlock]
    exact fun hs hsocket => (hi.stopping hs hsocket).imp_right hk.inbound.scheduled
  torn := by
    rw [hlock]
    exact fun hl => hk.inbound.scheduled (hi.torn hl)

/-- The holder goes on and leaves the claim on the inbound socket as it is. -/
theorem Watched.goes (hi : σ.Watched) (hl : σ.lock = some h)
    (hdead : τ.peer.isDead = σ.peer.isDead) (hstopping : τ.peer.tcpStopping = σ.peer.tcpStopping)
    (hlinks : τ.peer.links.inboundSocket.isSome = true →
      σ.peer.links.inboundSocket.isSome = true ∧
        (h.promotes = true → τ.lock.any Holder.promotes = true))
    (hscheduled : τ.peer.inboundRemove.scheduled = σ.peer.inboundRemove.scheduled)
    (htorn : τ.lock.any Holder.tearsInbound = true → h.tearsInbound = true) : τ.Watched where
  dead := by
    rw [hdead, hstopping]
    exact hi.dead
  stopping := by
    rw [hstopping, hscheduled]
    intro hs hsocket
    obtain ⟨hsocket, hpromotes⟩ := hlinks hsocket
    refine (hi.stopping hs hsocket).imp_left fun hp => hpromotes ?_
    rwa [hl] at hp
  torn := by
    rw [hscheduled]
    exact fun ht => hi.torn (by rw [hl]; exact htorn ht)

theorem LockedMove.watched (hm : σ.LockedMove h τ) (hl : σ.lock = some h) (hi' : σ.Configured)
    (hkept : h.drops σ.peer = false) (hi : σ.Watched) : τ.Watched := by
  have htemp := hi'.tempPeer
  obtain ⟨hok, hin⟩ := hi'.control.holder h hl
  cases hm with
  | pass passes =>
    cases passes with
    | inboundClean s links scheduled socket =>
      exact ⟨hi.dead, fun _ _ => .inr scheduled, fun _ => scheduled⟩
    | promoteSetupFailed | promoteForget =>
      exact hi.goes hl rfl rfl (fun h => ⟨h, fun _ => rfl⟩) rfl (fun h => by cases h)
    | drained | drain => exact hi.goes hl rfl rfl (fun h => ⟨h, (fun h => by cases h)⟩) rfl id
    | _ => exact hi.goes hl rfl rfl (fun h => ⟨h, (fun h => by cases h)⟩) rfl (fun h => by cases h)
  | connectPublish => exact hi.goes hl rfl rfl (fun h => by cases h) rfl (fun h => by cases h)
  | setup setsUp live =>
    have hlive : σ.peer.isDead = false ∧ σ.peer.tcpStopping = false := by
      simp_all [Peer.live]
    exact ⟨fun hd => absurd (hlive.1.symm.trans hd) (fun h => by cases h),
      fun hs => absurd (hlive.2.symm.trans hs) (fun h => by cases h),
      by cases setsUp <;> intro h <;> cases h⟩
  | connectFinish caller s first p finish =>
    obtain ⟨-, -, conn, -, rfl⟩ := Peer.connectFinish_some hok.1 finish
    exact hi.goes hl rfl rfl (fun h => ⟨h, (fun h => by cases h)⟩) rfl (fun h => by cases h)
  | unwindFinish caller =>
    refine hi.goes hl rfl rfl (fun h => ⟨h, (fun h => by cases h)⟩) rfl fun ht => ?_
    rw [hold_lock] at ht
    split at ht <;> cases ht
  | unwindQueue =>
    rw [Peer.unwindQueue_eq]
    exact hi.goes hl rfl rfl (fun h => ⟨h, (fun h => by cases h)⟩) rfl (fun h => by cases h)
  | connectReturn =>
    exact hi.goes hl (by simp) (by simp) (fun h => ⟨by simpa using h, (fun h => by cases h)⟩)
      (by simp) (fun h => by cases h)
  | inboundFinish =>
    refine ⟨hi.dead, fun hs hsocket => ?_, (fun h => by cases h)⟩
    -- The worker would drop the claim of the stop.
    have hscheduled : σ.peer.inboundRemove.scheduled = true :=
      (hi.stopping hs hsocket).resolve_left (by simp [hl, Holder.promotes])
    replace hsocket : σ.peer.links.inboundSocket.isSome = true := hsocket
    have hexact : σ.peer.inboundRemove.socket = σ.peer.links.inboundSocket := by
      refine (hi'.exact.inbound hscheduled).resolve_right ?_
      rintro ⟨hnone, -⟩
      simp [hnone] at hsocket
    simp [Holder.drops, hscheduled, hsocket, hexact] at hkept
  | rearm rearms =>
    rw [Peer.rearm_eq]
    exact hi.goes hl rfl rfl (fun h => ⟨h, by cases rearms <;> intro h <;> cases h⟩) rfl
      (by cases rearms <;> intro h <;> cases h)
  | bootstrapTake k next =>
    refine hi.goes hl rfl rfl (fun h => ⟨h, (fun h => by cases h)⟩) rfl ?_
    rcases next with rfl | ⟨s, rfl⟩ <;> intro h <;> cases h
  | promoteFree s links =>
    exact ⟨hi.dead, fun _ hs => absurd hs (by simp [Peer.promoteClaim, links, Links.none]),
      (fun h => by cases h)⟩
  | promoteClaim s t inbound links =>
    exact ⟨hi.dead, fun _ => .inr, id⟩
  | promotePublish s => exact ⟨hi.dead, fun _ _ => .inl rfl, (fun h => by cases h)⟩
  | stopReclaim => exact ⟨hi.dead, fun _ _ => .inr rfl, fun _ => rfl⟩
  | stopPurge s inbound links =>
    refine hi.goes hl rfl rfl (fun h => ⟨h, (fun h => by cases h)⟩) rfl fun ht => ?_
    cases inbound with
    | false => cases ht
    | true => simp [Holder.tearsInbound, links, Links.on]
  | installData | installFinish | installFail | handoverNothing | handoverClaim | handoverReset
  | handoverDetach => simp [Inside, Holder.thread, htemp] at hin
  | destroyed => exact absurd (htemp.symm.trans hok.2) (by simp)
  | cancelRead | cancelWrite =>
    exact hi.goes hl rfl rfl (fun h => ⟨h, (fun h => by cases h)⟩) rfl id
  | clearFlags plan =>
    have htorn : plan.next.tearsInbound = true → plan.tearsInbound = true :=
      plan.next_tearsInbound
    cases plan <;> exact hi.goes hl rfl rfl (fun h => ⟨h, (fun h => by cases h)⟩) rfl htorn
  | reset => exact hi.goes hl rfl rfl (fun h => ⟨h, (fun h => by cases h)⟩) rfl id
  | release => exact hi.goes hl rfl rfl (fun h => by cases h) rfl (fun h => by cases h)
  | purge =>
    exact hi.goes hl rfl rfl (fun h => ⟨h, (fun h => by cases h)⟩) rfl (fun h => by cases h)
  | shutdown s owner =>
    refine hi.goes hl rfl rfl (fun h => ⟨h, (fun h => by cases h)⟩) rfl fun ht => ?_
    obtain ⟨other, rfl⟩ := Owner.next_tearsInbound ht
    cases hok.2
  | _ => exact hi.goes hl rfl rfl (fun h => ⟨h, (fun h => by cases h)⟩) rfl (fun h => by cases h)

theorem step_watched {A : SkbAllocator} {queueLimit : Nat} {a : Action} (hi' : σ.Configured)
    (hkept : σ.ClaimKept a) (hi : σ.Watched) (h : σ.step A queueLimit a = some τ) :
    τ.Watched := by
  have hc := hi'.control
  have htemp := hi'.tempPeer
  have stopped (hrank : 6 < σ.stop.rank) :
      σ.peer.links = .none ∧ ¬ σ.lock.any Holder.tearsInbound = true := by
    obtain ⟨hnone, hpassing⟩ := hc.stop.stopped htemp hrank
    refine ⟨hnone, fun ht => ?_⟩
    obtain ⟨k, hk, ht⟩ := (Option.any_eq_true _ _).mp ht
    have := hpassing k hk
    cases k <;> first | cases ht | cases this
  cases a with
  | kernel e =>
    obtain ⟨sk, -, rfl⟩ := Option.map_eq_some_iff.mp h
    exact ⟨hi.dead, hi.stopping, hi.torn⟩
  | callback t =>
    have hm := callbackStep_cases h
    exact hi.keep htemp hm.outside.toKeeps hm.frame.1
  | read choice => exact hi.keep htemp (readStep_arming h).keeps (readStep_arming h).lock
  | write choice => exact hi.keep htemp (writeStep_arming h).keeps (writeStep_arming h).lock
  | request r => exact hi.keep htemp (requestStep_arming h).keeps (requestStep_arming h).lock
  | thread t choice =>
    cases threadStep_cases hc h with
    | aside aside => exact hi.keep htemp aside.peer.toKeeps aside.lock
    | dead temp => exact absurd (htemp.symm.trans temp) (fun h => by cases h)
    | acquire k entry free lock device peer =>
      refine ⟨peer ▸ hi.dead, ?_, ?_⟩
      · rw [peer]
        exact fun hs hsocket => (hi.stopping hs hsocket).imp_left (by simp [free])
      · rw [lock, Option.any_some, Holder.entry_tearsInbound entry]
        intro h
        cases h
    | promotionClaim => exact ⟨hi.dead, hi.stopping, hi.torn⟩
    | stopBegin =>
      rw [htemp]
      exact ⟨fun _ => rfl, fun _ _ => .inr rfl, fun _ => rfl⟩
    | stopFinish stopping pc =>
      obtain ⟨hnone, huntorn⟩ := stopped (by simp [pc, StopPc.rank])
      exact ⟨hi.dead, fun _ hs => absurd hs (by simp [Peer.stopFinish, hnone, Links.none]),
        fun ht => absurd ht huntorn⟩
  | locked choice =>
    obtain ⟨k, hk, h⟩ := Option.bind_eq_some_iff.mp h
    refine (lockedStep_cases hc hk h).watched hk hi' ?_ hi
    simpa [ClaimKept, dropsClaim, hk] using hkept
  | lifecycle l =>
    cases l with
    | deviceDown =>
      cases h
      exact ⟨hi.dead, hi.stopping, hi.torn⟩
    | deviceUp =>
      obtain ⟨⟨hpc, -, halive, -⟩, ⟨⟩⟩ := Option.ite_none_right_eq_some.mp h
      obtain ⟨hnone, huntorn⟩ := stopped (by simp [hpc, StopPc.rank])
      rw [Peer.wgOpen, if_neg (by simp [hc.custody.quarantined])]
      exact ⟨fun hd => absurd (halive.symm.trans hd) (fun h => by cases h),
        fun _ hs => absurd hs (by simp [hnone, Links.none]), fun ht => absurd ht huntorn⟩
    | removePeer =>
      obtain ⟨⟨hpc, -⟩, ⟨⟩⟩ := Option.ite_none_right_eq_some.mp h
      obtain ⟨hnone, huntorn⟩ := stopped (by simp [hpc, StopPc.rank])
      exact ⟨fun _ => rfl, fun _ hs => absurd hs (by simp [Peer.peerMakeDead, hnone, Links.none]),
        fun ht => absurd ht huntorn⟩
    | install s =>
      replace h : σ.lifecycleStep (.install s) = some τ := h
      simp only [lifecycleStep] at h
      split at h
      · obtain ⟨⟨temp, -⟩, ⟨⟩⟩ := Option.ite_none_right_eq_some.mp h
        exact absurd (htemp.symm.trans temp) (fun h => by cases h)
      · cases h
    | handover s =>
      obtain ⟨⟨temp, -⟩, ⟨⟩⟩ := Option.ite_none_right_eq_some.mp h
      exact absurd (htemp.symm.trans temp) (fun h => by cases h)

/-! ## The state of an accepted socket -/

/-- A socket that has not been dialed: what the listener accepted, up to the inbound socket. -/
def Accepted (σ : State) (s : SockId) : Prop :=
  (∃ connectionId, (σ.socks s).stage = .provisional connectionId) ∨
    (σ.socks s).stage = .promoting ∨ σ.peer.links.inboundSocket = some s

def Opened (σ : State) : Prop :=
  ∀ s, σ.Accepted s → (σ.socks s).skState = .established ∨ (σ.socks s).skState.closed = true

theorem opened_init (tempPeer : Bool) (addressing : Addressing) :
    (State.init tempPeer addressing).Opened := by
  rintro s (⟨connectionId, h⟩ | h | h) <;> cases h

/-- No socket becomes an accepted one, and no accepted one is opened again. -/
theorem Opened.keep (hi : σ.Opened) (haccepted : ∀ s, τ.Accepted s → σ.Accepted s)
    (hstate : ∀ s, σ.Accepted s → (τ.socks s).skState = (σ.socks s).skState ∨
      (τ.socks s).skState.closed = true) : τ.Opened := by
  intro s hs
  rcases hstate s (haccepted s hs) with heq | hclosed
  · rw [heq]
    exact hi s (haccepted s hs)
  · exact .inr hclosed

theorem Opened.of_eq (hi : σ.Opened) (hlinks : τ.peer.links = σ.peer.links)
    (hsocks : ∀ s, (τ.socks s).stage = (σ.socks s).stage ∧
      (τ.socks s).skState = (σ.socks s).skState) : τ.Opened := by
  refine hi.keep (fun s hs => ?_) fun s _ => .inl (hsocks s).2
  rwa [Accepted, (hsocks s).1, hlinks] at hs

theorem same_update {socks : SockId → Sock} {sk : Sock} (hstage : sk.stage = (socks s).stage)
    (hstate : sk.skState = (socks s).skState) (t : SockId) :
    (Function.update socks s sk t).stage = (socks t).stage ∧
      (Function.update socks s sk t).skState = (socks t).skState := by
  by_cases ht : t = s
  · subst ht
    simp [hstage, hstate]
  · simp [ht]

theorem kernel_opened {e : KernelEvent} {sk : Sock} (hi : σ.Opened)
    (h : (σ.socks e.sock).kernel e = some sk) : (σ.setSock e.sock sk).Opened := by
  cases e with
  | accept s connectionId =>
    obtain ⟨-, ⟨⟩⟩ := Option.ite_none_right_eq_some.mp h
    intro t ht
    by_cases hts : t = s
    · subst hts
      exact .inl (by simp [KernelEvent.sock])
    · have : σ.Accepted t := by simpa [Accepted, KernelEvent.sock, hts] using ht
      simpa [KernelEvent.sock, hts] using hi t this
  | arrive | room =>
    obtain ⟨-, ⟨⟩⟩ := Option.ite_none_right_eq_some.mp h
    exact hi.of_eq rfl (same_update rfl rfl)
  | transition s st =>
    obtain ⟨⟨-, -, hreaches⟩, ⟨⟩⟩ := Option.ite_none_right_eq_some.mp h
    intro t ht
    by_cases hts : t = s
    · subst hts
      have haccepted : σ.Accepted t := by simpa [Accepted, KernelEvent.sock] using ht
      refine .inr ?_
      simp only [KernelEvent.sock, setSock_socks, Function.update_self]
      exact TcpState.closed_of_opened (hi t haccepted) hreaches
    · have : σ.Accepted t := by simpa [Accepted, KernelEvent.sock, hts] using ht
      simpa [KernelEvent.sock, hts] using hi t this
  | foreignRead s n =>
    simp only [Sock.kernel] at h
    split at h <;> cases h
    exact hi.of_eq rfl (same_update rfl rfl)

/-- One socket changes its stage, and is accepted only if it was. -/
theorem Opened.restage {sk : Sock} (hi : σ.Opened) (hsocks : τ.socks = Function.update σ.socks s sk)
    (hlinks : ∀ t ≠ s, τ.peer.links.inboundSocket = some t → σ.peer.links.inboundSocket = some t)
    (haccepted : τ.Accepted s → σ.Accepted s) (hstate : sk.skState = (σ.socks s).skState) :
    τ.Opened := by
  have state (t : SockId) : (τ.socks t).skState = (σ.socks t).skState := by
    rw [hsocks]
    by_cases ht : t = s
    · subst ht
      simp [hstate]
    · simp [ht]
  refine hi.keep (fun t ht => ?_) fun t _ => .inl (state t)
  by_cases hts : t = s
  · exact hts ▸ haccepted (hts ▸ ht)
  · rw [Accepted, hsocks, Function.update_of_ne hts] at ht
    exact ht.imp_right (.imp_right (hlinks t hts))

theorem LockedMove.opened (hm : σ.LockedMove h τ) (hl : σ.lock = some h) (hc : σ.Control)
    (hi : σ.Opened) : τ.Opened := by
  obtain ⟨hok, -⟩ := hc.holder h hl
  have same (hlinks : τ.peer.links = σ.peer.links) (hsocks : τ.socks = σ.socks) : τ.Opened :=
    hi.of_eq hlinks fun t => by simp [hsocks]
  cases hm with
  | create caller s unused =>
    refine hi.restage rfl (fun _ _ => id) ?_ rfl
    rintro (⟨connectionId, hs⟩ | hs | hs)
    · simp at hs
    · simp at hs
    · exact .inr (.inr hs)
  | connectPublish caller s =>
    refine hi.restage rfl (fun _ _ h => by cases h) ?_ rfl
    rintro (⟨connectionId, hs⟩ | hs | hs)
    · simp at hs
    · simp at hs
    · cases hs
  | promotePublish s =>
    refine hi.restage rfl (fun t ht hs => ?_) (fun _ => .inr (.inl hok.2)) rfl
    exact absurd (Option.some.inj hs).symm ht
  | setup | reset | handoverReset => exact hi.of_eq rfl (same_update rfl rfl)
  | start caller s =>
    have howned : (σ.socks s).stage = .owned := owned_of_active hc.custody (by rw [hok.1]; rfl)
    refine hi.keep (fun t ht => ?_) fun t ht => .inl ?_
    · by_cases hts : t = s
      · subst hts
        simpa [Accepted] using ht
      · simpa [Accepted, hts] using ht
    · have hts : t ≠ s := by
        rintro rfl
        rcases ht with ⟨connectionId, hs⟩ | hs | hs
        · exact absurd (howned.symm.trans hs) (fun h => by cases h)
        · exact absurd (howned.symm.trans hs) (fun h => by cases h)
        · rw [hok.1] at hs
          cases hs
      simp [hts]
  | connectFinish caller s first p finish =>
    obtain ⟨-, -, conn, -, rfl⟩ := Peer.connectFinish_some hok.1 finish
    exact same rfl rfl
  | unwindQueue =>
    rw [Peer.unwindQueue_eq]
    exact hi.of_eq rfl fun _ => ⟨rfl, rfl⟩
  | connectReturn => exact same (by simp) (by simp)
  | rearm =>
    rw [Peer.rearm_eq]
    exact hi.of_eq rfl fun _ => ⟨rfl, rfl⟩
  | installData => exact same (Peer.wgTcpDataReady_outside _ _).links rfl
  | installFinish =>
    refine same ?_ rfl
    dsimp only [setPeer_peer, Peer.finishInit]
    split <;> rfl
  | clearFlags plan => cases plan <;> exact same rfl rfl
  | release | handoverDetach =>
    exact hi.keep (fun t ht => ht.imp_right (.imp_right (fun h => by cases h))) fun t _ => .inl rfl
  | shutdown s owner =>
    refine hi.keep (fun t ht => ?_) fun t ht => ?_
    · by_cases hts : t = s
      · subst hts
        simpa [Accepted] using ht
      · simpa [Accepted, hts] using ht
    · by_cases hts : t = s
      · subst hts
        exact .inr (by simp [TcpState.closed])
      · exact .inl (by simp [hts])
  | _ => exact same rfl rfl

theorem step_opened {A : SkbAllocator} {queueLimit : Nat} {a : Action} (hc : σ.Control)
    (hi : σ.Opened) (h : σ.step A queueLimit a = some τ) : τ.Opened := by
  cases a with
  | kernel e =>
    obtain ⟨sk, hsk, rfl⟩ := Option.map_eq_some_iff.mp h
    exact kernel_opened hi hsk
  | callback t =>
    have hlinks := (callbackStep_cases h).outside.links
    cases callbackStep_cases h <;> exact hi.of_eq hlinks (same_update rfl rfl)
  | read choice =>
    refine hi.of_eq (readStep_arming h).keeps.links ?_
    cases readStep_cases h with
    | pass => exact same_update rfl rfl
    | _ => exact fun _ => ⟨rfl, rfl⟩
  | write choice =>
    refine hi.of_eq (writeStep_arming h).keeps.links ?_
    cases writeStep_cases h with
    | dequeue =>
      unfold writeDequeue
      split <;> exact fun _ => ⟨rfl, rfl⟩
    | send | arm => exact same_update rfl rfl
    | _ => exact fun _ => ⟨rfl, rfl⟩
  | request r =>
    refine hi.of_eq (requestStep_arming h).keeps.links ?_
    cases requestStep_cases h with
    | accept => exact same_update rfl rfl
    | aside aside => exact fun t => by simp [aside.socks]
  | thread t choice =>
    cases threadStep_cases hc h with
    | aside aside => exact hi.of_eq aside.peer.links fun t => by simp [aside.socks]
    | acquire k entry free lock device peer socks =>
      exact hi.of_eq (by rw [peer]) fun t => by simp [socks]
    | promotionClaim s connectionId stage =>
      exact hi.restage rfl (fun _ _ => id) (fun _ => .inl ⟨connectionId, stage⟩) rfl
    | stopBegin => exact hi.of_eq (by split <;> rfl) fun _ => ⟨rfl, rfl⟩
    | _ => exact hi.of_eq rfl fun _ => ⟨rfl, rfl⟩
  | locked choice =>
    obtain ⟨k, hk, h⟩ := Option.bind_eq_some_iff.mp h
    exact (lockedStep_cases hc hk h).opened hk hc hi
  | lifecycle l =>
    cases lifecycleStep_cases hc h with
    | deviceUp =>
      unfold Peer.wgOpen
      split <;> exact hi.of_eq rfl fun _ => ⟨rfl, rfl⟩
    | install s connectionId stage =>
      refine hi.restage rfl (fun t ht hs => ?_) (fun _ => .inl ⟨connectionId, stage⟩) rfl
      exact absurd (Option.some.inj hs).symm ht
    | _ => exact hi.of_eq rfl fun _ => ⟨rfl, rfl⟩

/-! ## Promotions that are over -/

theorem step_owned {A : SkbAllocator} {queueLimit : Nat} {a : Action} (hc : σ.Control)
    (h : σ.step A queueLimit a = some τ) (hs : (σ.socks s).stage = .owned) :
    (τ.socks s).stage = .owned := by
  rcases step_beside hc h with ⟨choice, rfl⟩ | ⟨choice, rfl⟩ | hbeside
  · rw [← hs]
    exact ((readStep_steady h).socks s).stage (by rw [hs]; rfl)
  · rw [← hs]
    exact ((writeStep_steady h).socks s).stage (by rw [hs]; rfl)
  · exact (hbeside.socks s).stage hs

theorem LockedMove.publishes (hm : σ.LockedMove h τ) (hok : h.Ok σ) (hk : τ.lock = some k)
    (hs : k.publishes = some s) : k = .promotePublish s ∨ h.publishes = some s := by
  cases hm with
  | pass passes =>
    cases passes with
    | promoteSetupFailed | promoteForget =>
      cases hk
      exact .inr hs
    | _ =>
      cases hk
      cases hs
  | promotePublish t =>
    cases hk
    exact .inr hs
  | setup setsUp => cases setsUp <;> cases hk <;> cases hs
  | rearm rearms => cases rearms <;> cases hk <;> cases hs
  | unwindFinish caller =>
    rw [hold_lock] at hk
    split at hk <;> cases hk <;> cases hs
  | bootstrapTake k' next => rcases next with rfl | ⟨t, rfl⟩ <;> cases hk <;> cases hs
  | promoteFree t =>
    cases hk
    cases hs
    exact .inl rfl
  | clearFlags plan =>
    cases hk
    exact .inl (plan.next_publishes hs)
  | reset t owner =>
    cases hk
    cases owner with
    | rollback => exact absurd rfl hok.2.2.1
    | _ => cases hs
  | shutdown t owner =>
    cases hk
    exact .inl (Owner.next_publishes hs)
  | _ => cases hk <;> cases hs

theorem Holder.entry_publishes {k : Holder} (hk : k.entry = true) : k.publishes = none := by
  cases k with
  | drain sockets plan cancel => rfl
  | _ => first | rfl | cases hk

theorem step_publishes {A : SkbAllocator} {queueLimit : Nat} {a : Action} (hc : σ.Control)
    (h : σ.step A queueLimit a = some τ) (hk : τ.lock = some k) (hs : k.publishes = some s) :
    k = .promotePublish s ∨ σ.lock.bind Holder.publishes = some s := by
  have same (hlock : τ.lock = σ.lock) :
      k = .promotePublish s ∨ σ.lock.bind Holder.publishes = some s :=
    .inr (by rw [← hlock, hk]; exact hs)
  cases a with
  | kernel e => exact same (kernelStep_steady h).lock
  | callback t => exact same (callbackStep_steady h).lock
  | read choice => exact same (readStep_steady h).lock
  | write choice => exact same (writeStep_steady h).lock
  | request r => exact same (requestStep_steady h).lock
  | thread t choice =>
    cases threadStep_cases hc h with
    | aside aside => exact same aside.lock
    | acquire k' entry free lock =>
      obtain rfl := Option.some.inj (lock.symm.trans hk)
      rw [Holder.entry_publishes entry] at hs
      cases hs
    | _ => exact same rfl
  | locked choice =>
    obtain ⟨k', hl, h⟩ := Option.bind_eq_some_iff.mp h
    rw [hl]
    exact (lockedStep_cases hc hl h).publishes (hc.holder k' hl).1 hk hs
  | lifecycle l =>
    cases lifecycleStep_cases hc h with
    | install | handover =>
      cases hk
      cases hs
    | _ => exact same rfl

variable {A : SkbAllocator} {queueLimit : Nat} {addressing : Addressing} {as : List Action}

/-- A socket is promoted once. -/
def Settled (A : SkbAllocator) (queueLimit : Nat) (addressing : Addressing) (as : List Action)
    (σ : State) : Prop :=
  ∀ s, Promoted A queueLimit false addressing as s →
    (σ.socks s).stage = .owned ∧ σ.lock.bind Holder.publishes ≠ some s

theorem Settled.step {a : Action} (hi : Settled A queueLimit addressing as σ)
    (hrun : Reaches A queueLimit false addressing as σ) (h : σ.step A queueLimit a = some τ) :
    Settled A queueLimit addressing (as ++ [a]) τ := by
  intro s hs
  have hc := Reaches.control hrun
  have hc' := step_control hc h
  rcases (Transition.happens_concat hrun).mp hs with hs | ⟨hlock, hany⟩
  · obtain ⟨howned, hnot⟩ := hi s hs
    have howned' := step_owned hc h howned
    refine ⟨howned', fun hp => ?_⟩
    obtain ⟨k, hk, hp⟩ := Option.bind_eq_some_iff.mp hp
    rcases step_publishes hc h hk hp with rfl | hbefore
    · exact absurd (howned'.symm.trans (hc'.holder _ hk).1.2) (fun h => by cases h)
    · exact hnot hbefore
  · have howned : (σ.socks s).stage = .owned :=
      owned_of_active hc.custody (by rw [(hc.holder _ hlock).1.1]; rfl)
    rw [h, Option.any_some, decide_eq_true_eq] at hany
    exact ⟨step_owned hc h howned, by rw [hany]; intro h; cases h⟩

theorem Reaches.settled (h : Reaches A queueLimit false addressing as σ) :
    Settled A queueLimit addressing as σ := by
  have hmeets : Transition.Meets (step A queueLimit) (fun _ _ => True)
      (.init false addressing) as :=
    Transition.meets_of_forall_mem (fun _ _ _ => trivial) _
  exact Transition.run_history (I := Settled A queueLimit addressing)
    (fun _ _ _ _ hrun hi _ hstep => hi.step hrun hstep) (fun _ h => by cases h) hmeets h

/-! ## Closed carriers -/

/-- A promotion installs its callbacks on a socket that is open, or whose state callback is still
to come; and no removal worker drops a claim that it has not seen. -/
def CloseHeard (σ : State) (a : Action) : Prop := σ.setupHeard a = true ∧ σ.ClaimKept a

instance (σ : State) (a : Action) : Decidable (σ.CloseHeard a) :=
  inferInstanceAs (Decidable (_ ∧ _))

/-- An inbound socket without callbacks is on its way out, or being promoted. -/
theorem tearsInbound_of_unhooks (hc : σ.Control) (htemp : σ.peer.tempPeer = false)
    (hlinks : σ.peer.links = .on s true) (hpromotes : σ.lock.any Holder.promotes ≠ true)
    (hl : σ.lock.any Holder.unhooks = true) : σ.lock.any Holder.tearsInbound = true := by
  obtain ⟨k, hk, hl⟩ := (Option.any_eq_true _ _).mp hl
  have hok := (hc.holder k hk).1
  rw [hk] at hpromotes ⊢
  have outbound {t : SockId} (h : σ.peer.links = .on t false) : False := by
    rw [hlinks] at h
    cases h
  cases k with
  | connectSetup caller t => exact (outbound hok.1).elim
  | unwind caller t =>
    cases t with
    | none =>
      rw [show σ.peer.links = .none from hok] at hlinks
      cases hlinks
    | some t =>
      rcases hok with hok | hok
      · exact (outbound hok).elim
      · rw [hok] at hlinks
        cases hlinks
  | promoteSetup | promoteForget => exact absurd rfl hpromotes
  | reset t owner =>
    cases owner with
    | inbound | promoteInbound | stopInbound => rfl
    | rollback => exact absurd rfl hok.2.2.1
    | destroy => exact absurd (htemp.symm.trans hok.2.1) (fun h => by cases h)
    | _ => exact (outbound hok.1).elim
  | release t owner =>
    cases owner with
    | inbound | promoteInbound | stopInbound => rfl
    | rollback => exact absurd rfl hpromotes
    | destroy => exact absurd (htemp.symm.trans hok.2.2.1) (fun h => by cases h)
    | _ => exact (outbound hok.1).elim
  | cancelRead plan | cancelWrite plan | clearFlags plan =>
    cases plan with
    | detach t owner =>
      cases owner with
      | unwind => exact (outbound hok.1.1).elim
      | _ => cases hl
    | _ => cases hl
  | _ => cases hl

/-- No close of a promoted carrier is lost: as long as it is the inbound socket of the peer, no
callback is running and it is not established, it is claimed by name. -/
theorem promoted_close_noticed (h : Reaches A queueLimit false addressing as σ)
    (hheard : Transition.Meets (step A queueLimit) CloseHeard (.init false addressing) as)
    (hpromoted : Promoted A queueLimit false addressing as s)
    (hcallback : (σ.socks s).callback = none) (hsocket : σ.peer.links.inboundSocket = some s)
    (hclosed : (σ.socks s).skState ≠ .established) : σ.peer.ClaimedInbound s := by
  obtain ⟨hs, ⟨hconfigured, hwatched⟩, hopened, hnoticed, hinstalled⟩ :=
    Transition.run_invariant_of_meets
      (I := fun σ => σ.Sound ∧ (σ.Configured ∧ σ.Watched) ∧ σ.Opened ∧ σ.Noticed true ∧ σ.Installed)
      (fun _ _ _ hi hcond h => ⟨hi.1.step h,
        ⟨hi.2.1.1.step h, step_watched hi.2.1.1 hcond.2 hi.2.1.2 h⟩,
        step_opened hi.1.control hi.2.2.1 h,
        step_noticed hi.1 hcond.2 (fun _ => hcond.1) hi.2.2.2.1 h,
        step_installed hi.1.control hi.2.1.1.tempPeer hi.2.2.2.2 h⟩)
      ⟨sound_init false addressing, ⟨configured_init addressing, watched_init addressing⟩,
        opened_init false addressing, noticed_init false addressing, .inl rfl⟩ hheard h
  have hc := hs.control
  have hlinks := hc.custody.on_socketOf (show σ.peer.socketOf true = some s from hsocket)
  -- A claim in place is on this socket.
  have claimed (hscheduled : σ.peer.inboundRemove.scheduled = true) : σ.peer.ClaimedInbound s := by
    rcases hconfigured.exact.inbound hscheduled with hexact | ⟨hnone, -⟩
    · exact ⟨hscheduled, hexact.trans hsocket, hsocket⟩
    · exact absurd (hsocket.symm.trans hnone) (fun h => by cases h)
  have hsettled : σ.lock.any Holder.promotes ≠ true := by
    intro hp
    obtain ⟨k, hk, hp⟩ := (Option.any_eq_true _ _).mp hp
    have hok := (hc.holder k hk).1
    have hnot := (h.settled s hpromoted).2
    rw [hk] at hnot
    have absurd_of (t : SockId) (hlinks : σ.peer.links = .on t true)
        (ht : k.publishes = some t) : False := by
      rw [hlinks] at hsocket
      exact hnot (ht.trans hsocket)
    cases k with
    | promoteSetup t | promoteForget t => exact absurd_of t hok.1 rfl
    | release t owner =>
      cases owner with
      | rollback => exact absurd_of t hok.1 rfl
      | _ => cases hp
    | _ => cases hp
  have stopping (hs : σ.peer.tcpStopping = true) : σ.peer.ClaimedInbound s :=
    claimed ((hwatched.stopping hs (by rw [hsocket]; rfl)).resolve_left hsettled)
  rcases hinstalled with hnone | hhooks | hl
  · rw [hlinks] at hnone
    cases hnone
  · have hshut : (σ.socks s).Shut true :=
      ⟨hook_of_hooks hc.custody hhooks hlinks,
        (hopened s (.inr (.inr hsocket))).resolve_left hclosed, by rw [hcallback]; rfl⟩
    rcases (hnoticed s hshut).resolve_right (not_arriving_of_inbound hc hlinks) with
      hr | hr | hr | hr | hr
    · exact absurd (by rw [hlinks]; rfl) hr
    · exact stopping (hwatched.dead hr)
    · exact stopping hr
    · have := hr.owned
      rw [hlinks] at this
      cases this
    · exact hr
  · exact claimed (hwatched.torn
      (tearsInbound_of_unhooks hc hconfigured.tempPeer hlinks hsettled hl))

def closedPromotedRun : List Action :=
  inboundRun ++ [.kernel (.transition 0 .closeWait), .callback 0, .callback 0, .callback 0]

theorem promoted_close_noticed_closed : ∃ σ,
    Reaches exactAllocator 4 false .unset closedPromotedRun σ ∧
    (σ.socks 0).skState = .closeWait ∧ σ.peer.ClaimedInbound 0 := by
  have hrun : ((Transition.run (step exactAllocator 4) (.init false .unset)
      closedPromotedRun).any fun σ =>
        decide ((σ.socks 0).callback = none ∧ σ.peer.links.inboundSocket = some 0 ∧
          (σ.socks 0).skState = .closeWait)) = true := by
    decide +kernel
  obtain ⟨σ, hσ, hcheck⟩ := Transition.exists_run_of_any hrun
  obtain ⟨hcallback, hsocket, hclosed⟩ := of_decide_eq_true hcheck
  exact ⟨σ, hσ, hclosed, promoted_close_noticed hσ (by decide +kernel) (by decide +kernel) hcallback
    hsocket (by rw [hclosed]; intro h; cases h)⟩

/-- The other side resets the connection while neither peer has its callbacks on the socket. -/
def closedInHandoverRun : List Action :=
  [.kernel (.accept 0 1), .request (.authenticated 1)] ++
    List.replicate 4 (.thread .promotion ⟨true, 0⟩) ++ List.replicate 2 (.locked ⟨true, 0⟩) ++
    [.kernel (.transition 0 .close), .callback 0] ++ List.replicate 5 (.locked ⟨true, 0⟩) ++
    [.thread .promotion ⟨true, 0⟩]

/-- The promotion publishes a closed stream as the peer's established carrier. -/
theorem promoted_close_noticed_fails : ∃ σ,
    Reaches exactAllocator 4 false .unset closedInHandoverRun σ ∧
    Promoted exactAllocator 4 false .unset closedInHandoverRun 0 ∧
    σ.lock = none ∧ σ.promotion = .idle ∧ σ.peer.live σ.device = true ∧
    (σ.socks 0).callback = none ∧ σ.peer.links.inboundSocket = some 0 ∧
    (σ.socks 0).skState = .close ∧ σ.peer.inboundRemove.scheduled = false ∧
    σ.peer.conn.established = true := by
  have hrun : ((Transition.run (step exactAllocator 4) (.init false .unset)
      closedInHandoverRun).any fun σ =>
        decide (σ.lock = none ∧ σ.promotion = .idle ∧ σ.peer.live σ.device = true ∧
          (σ.socks 0).callback = none ∧ σ.peer.links.inboundSocket = some 0 ∧
          (σ.socks 0).skState = .close ∧ σ.peer.inboundRemove.scheduled = false ∧
          σ.peer.conn.established = true)) = true := by
    decide +kernel
  obtain ⟨σ, hσ, hcheck⟩ := Transition.exists_run_of_any hrun
  exact ⟨σ, hσ, by decide +kernel, of_decide_eq_true hcheck⟩

end State

end WgTcp
