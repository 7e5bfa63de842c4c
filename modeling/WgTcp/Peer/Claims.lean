import WgTcp.Peer.Moves

/-!
# Exact claims

The removal of a socket is claimed under `tcp_lock`, sockets are published and
released under `tcp_socket_lock`. A claim names the socket of its direction
whenever nobody holds `tcp_socket_lock`, except that a stop which has released
the socket clears its claims only after it has given the lock back. The
invariant says where under the lock a claim may be off, and what puts it right.
-/

namespace WgTcp

/-! ## Where a claim may be off -/

/-- The socket is released; its outbound claim is cleared next. -/
def Owner.clearsOutbound : Owner → Bool
  | .unwind _ | .outbound _ | .promoteOutbound _ => true
  | _ => false

def Owner.clearsInbound : Owner → Bool
  | .inbound | .promoteInbound _ _ => true
  | _ => false

def Holder.clearsOutbound : Holder → Bool
  | .purge _ owner | .shutdown _ owner => owner.clearsOutbound
  | .unwindFinish _ | .outboundFinish _ _ _ | .promotePublish _ => true
  | _ => false

def Holder.clearsInbound : Holder → Bool
  | .purge _ owner | .shutdown _ owner => owner.clearsInbound
  | .inboundFinish _ | .promotePublish _ => true
  | _ => false

/-- A claim that was made before the connect published its socket; the installation of the
callbacks fails on it, and the unwinding makes it exact. -/
def Holder.settlesClaim : Holder → Bool
  | .connectSetup _ _ | .unwind _ _ => true
  | _ => false

/-- A promoted socket that does not have its callbacks yet. -/
def Holder.promotes : Holder → Bool
  | .promoteSetup _ | .promoteForget _ | .release _ .rollback => true
  | _ => false

theorem Holder.promotes_of_entry (k : Holder) (h : k.entry = true) : k.promotes = false := by
  cases k <;> first | rfl | cases h

namespace State

/-- A stop that has not come to its end. -/
def Stopping (σ : State) : Prop := σ.peer.tcpStopping = true ∧ σ.stop ≠ .done

def OutboundExact (σ : State) : Prop :=
  σ.peer.outboundRemove.scheduled = true →
    σ.peer.outboundRemove.socket = σ.peer.links.outboundSocket ∨
      σ.lock.any Holder.settlesClaim = true ∨
      (σ.peer.links.outboundSocket = none ∧
        (σ.Stopping ∨ σ.lock.any Holder.clearsOutbound = true))

def InboundExact (σ : State) : Prop :=
  σ.peer.inboundRemove.scheduled = true →
    σ.peer.inboundRemove.socket = σ.peer.links.inboundSocket ∨
      (σ.peer.links.inboundSocket = none ∧
        (σ.Stopping ∨ σ.lock.any Holder.clearsInbound = true))

structure Exact (σ : State) : Prop where
  outbound : σ.OutboundExact
  inbound : σ.InboundExact
  /-- Only a stop claims an inbound socket that is not there. -/
  named : σ.peer.inboundRemove.scheduled = true → σ.peer.inboundRemove.socket = none →
    σ.peer.tcpStopping = true
  /-- Without callbacks, only a stop claims a promoted socket. -/
  promoted : σ.lock.any Holder.promotes = true → σ.peer.inboundRemove.scheduled = true →
    σ.peer.tcpStopping = true
  done : σ.stop = .done → σ.peer.inboundRemove.scheduled = false

theorem exact_init (tempPeer : Bool) (addressing : Addressing) :
    (State.init tempPeer addressing).Exact where
  outbound := fun h => (by cases h)
  inbound := fun h => (by cases h)
  named := fun h => (by cases h)
  promoted := fun h => (by cases h)
  done := fun h => (by cases h)

variable {σ τ : State} {h k : Holder}

/-! ## Steps outside the lock -/

/-- A step that leaves the links alone, keeps or clears the inbound claim, and keeps or clears the
outbound claim or makes it exact. Whoever holds the lock afterwards repairs what the holder before
had to repair. -/
theorem Exact.proceed (hi : σ.Exact) (hlinks : τ.peer.links = σ.peer.links)
    (htcp : τ.peer.tcpStopping = σ.peer.tcpStopping) (hdone : τ.stop = .done ↔ σ.stop = .done)
    (hout : τ.peer.outboundRemove.scheduled = true →
      (σ.peer.outboundRemove.scheduled = true ∧
        τ.peer.outboundRemove.socket = σ.peer.outboundRemove.socket) ∨
      τ.peer.outboundRemove.socket = σ.peer.links.outboundSocket)
    (hin : τ.peer.inboundRemove.scheduled = true → σ.peer.inboundRemove.scheduled = true ∧
      τ.peer.inboundRemove.socket = σ.peer.inboundRemove.socket)
    (hsettles : σ.lock.any Holder.settlesClaim = true → τ.peer.outboundRemove.scheduled = true →
      τ.peer.outboundRemove.socket = σ.peer.links.outboundSocket ∨
        τ.lock.any Holder.settlesClaim = true)
    (houtbound : σ.lock.any Holder.clearsOutbound = true → τ.peer.outboundRemove.scheduled = true →
      τ.peer.outboundRemove.socket = σ.peer.links.outboundSocket ∨
        τ.lock.any Holder.clearsOutbound = true)
    (hinbound : σ.lock.any Holder.clearsInbound = true →
      τ.peer.inboundRemove.scheduled = false ∨ τ.lock.any Holder.clearsInbound = true)
    (hpromotes : τ.lock.any Holder.promotes = true → σ.lock.any Holder.promotes = true) :
    τ.Exact where
  outbound := by
    rw [OutboundExact, Stopping, hlinks, htcp, ne_eq, hdone]
    intro hs
    rcases hout hs with ⟨hs', hsocket⟩ | hexact
    · rw [hsocket]
      rcases hi.outbound hs' with heq | hl | ⟨hnone, hstop | hl⟩
      · exact .inl heq
      · exact (hsettles hl hs).imp hsocket.symm.trans .inl
      · exact .inr (.inr ⟨hnone, .inl hstop⟩)
      · exact (houtbound hl hs).imp hsocket.symm.trans fun hl => .inr ⟨hnone, .inr hl⟩
    · exact .inl hexact
  inbound := by
    rw [InboundExact, Stopping, hlinks, htcp, ne_eq, hdone]
    intro hs
    obtain ⟨hs', hsocket⟩ := hin hs
    rw [hsocket]
    refine (hi.inbound hs').imp_right (And.imp_right (Or.imp_right ?_))
    exact fun hl => (hinbound hl).resolve_left (by simp [hs])
  named := by
    rw [htcp]
    intro hs hnone
    obtain ⟨hs', hsocket⟩ := hin hs
    exact hi.named hs' (hsocket ▸ hnone)
  promoted := by
    rw [htcp]
    exact fun hl hs => hi.promoted (hpromotes hl) (hin hs).1
  done := by
    rw [hdone]
    intro hd
    by_contra hs
    have := (hin (by simpa using hs)).1
    simp [hi.done hd] at this

/-- A section that only adds outbound claims, on the current socket. -/
theorem Exact.keep (hi : σ.Exact) (hp : σ.peer.Keeps σ.device τ.peer)
    (hscheduled : τ.peer.inboundRemove.scheduled = σ.peer.inboundRemove.scheduled)
    (hclaimed : τ.peer.inboundRemove.socket = σ.peer.inboundRemove.socket)
    (hlock : τ.lock = σ.lock) (hdone : τ.stop = .done ↔ σ.stop = .done) : τ.Exact :=
  hi.proceed hp.links hp.tcpStopping hdone (hp.outbound.claims)
    (fun hs => ⟨hscheduled ▸ hs, hclaimed⟩) (by rw [hlock]; exact fun hl _ => .inr hl)
    (by rw [hlock]; exact fun hl _ => .inr hl) (by rw [hlock]; exact .inr) (by rw [hlock]; exact id)

theorem Exact.aside (hi : σ.Exact) (ha : σ.Aside τ) : τ.Exact :=
  hi.keep ha.peer.toKeeps ha.peer.scheduled ha.peer.claimed ha.lock ha.done

/-- The state section of a hooked inbound socket is the one place outside the lock where an inbound
claim is made. -/
theorem CallbackMove.inboundClaim {s : SockId} (hm : σ.CallbackMove s τ) :
    (τ.peer.inboundRemove.scheduled = σ.peer.inboundRemove.scheduled ∧
      τ.peer.inboundRemove.socket = σ.peer.inboundRemove.socket) ∨
    (τ.peer.inboundRemove.socket = some s ∧ σ.peer.links.inboundSocket = some s ∧
      (σ.socks s).userData.isSome = true) := by
  cases hm with
  | dataReady =>
    refine .inl ?_
    simp only [endCallback, setSock_peer, setPeer_peer, Peer.wgTcpDataReady]
    split <;> exact ⟨rfl, rfl⟩
  | writeSpace =>
    refine .inl ?_
    simp only [setSock_peer, setPeer_peer, Peer.wgTcpWriteSpace, Peer.wgTcpScheduleWriteLocked]
    repeat' split
    all_goals exact ⟨rfl, rfl⟩
  | stateSection inbound hook due =>
    simp only [setSock_peer, setPeer_peer, Peer.stateChangeSection, Peer.stateEstablished,
      Peer.wgTcpPublishOutboundEstablishedLocked, Peer.stateClosedInbound,
      Peer.stateClosedOutbound, hook]
    repeat' split
    all_goals simp_all [Removal.mark]
  | tailBootstrap =>
    have ha := Peer.wgTcpQueueCarrierBootstrap_aside σ.device σ.peer s
    exact .inl ⟨ha.scheduled, ha.claimed⟩
  | tailRemoval inbound =>
    have ha := Peer.queueRemoval_aside σ.device σ.peer s inbound
    exact .inl ⟨ha.scheduled, ha.claimed⟩
  | _ => exact .inl ⟨rfl, rfl⟩

theorem CallbackMove.frame {s : SockId} (hm : σ.CallbackMove s τ) :
    τ.lock = σ.lock ∧ τ.stop = σ.stop := by
  cases hm <;> exact ⟨rfl, rfl⟩

/-- Where a promoted socket waits for its callbacks, none are installed. -/
theorem unhooked_of_promotes (hc : σ.Control) (h : σ.lock.any Holder.promotes = true) :
    σ.Unhooked := by
  obtain ⟨k, hk, hpromotes⟩ := (Option.any_eq_true _ _).mp h
  have hok := (hc.holder k hk).1
  refine hc.custody.unhooked_of_hooks ?_
  cases k with
  | promoteSetup | promoteForget => exact hok.2
  | release => exact hok.2.1
  | _ => cases hpromotes

theorem callbackStep_exact {s : SockId} (hc : σ.Control) (htemp : σ.peer.tempPeer = false)
    (hi : σ.Exact) (h : σ.callbackStep s = some τ) : τ.Exact := by
  have hm := callbackStep_cases h
  have hp := hm.outside.toKeeps
  obtain ⟨hlock, hstop⟩ := hm.frame
  have hdone : τ.stop = .done ↔ σ.stop = .done := by rw [hstop]
  rcases hm.inboundClaim with ⟨h₁, h₂⟩ | ⟨hsocket, hlinks, hhook⟩
  · exact hi.keep hp h₁ h₂ hlock hdone
  · refine ⟨?_, ?_, ?_, ?_, ?_⟩
    · rw [OutboundExact, hp.links, hlock, Stopping, hp.tcpStopping, hstop]
      intro hs
      rcases hp.outbound.claims hs with ⟨hs', hsocket⟩ | hexact
      · rw [hsocket]
        exact hi.outbound hs'
      · exact .inl hexact
    · exact fun _ => .inl (hsocket.trans (by rw [hp.links, hlinks]))
    · intro _ hnone
      cases hsocket.symm.trans hnone
    · intro hpromotes
      simp [(unhooked_of_promotes hc (hlock ▸ hpromotes)).userData] at hhook
    · intro hs
      have := (hc.stop.stopped htemp (by simp [hdone.mp hs, StopPc.rank])).1
      simp [this, Links.none] at hlinks

theorem readStep_exact {A : SkbAllocator} {choice : ReadChoice} (hi : σ.Exact)
    (h : σ.readStep A choice = some τ) : τ.Exact := by
  cases readStep_cases h with
  | finish captured budget =>
    refine hi.keep (Peer.finishReader_outside _ _ _ _ _).toKeeps ?_ ?_ rfl .rfl
    all_goals
      simp only [readFinish, setPeer_peer, Peer.finishReader]
      split <;> rfl
  | _ => exact ⟨hi.outbound, hi.inbound, hi.named, hi.promoted, hi.done⟩

theorem writeStep_exact {choice : SendChoice} (hi : σ.Exact)
    (h : σ.writeStep choice = some τ) : τ.Exact := by
  cases writeStep_cases h with
  | dequeue s =>
    unfold writeDequeue
    split <;> exact ⟨hi.outbound, hi.inbound, hi.named, hi.promoted, hi.done⟩
  | fail s =>
    refine hi.keep (Peer.wgTcpFailExactSocket_outside _ _ _).toKeeps ?_ ?_ rfl .rfl
    all_goals
      simp only [writeFail, setPeer_peer, Peer.wgTcpFailExactSocket]
      repeat' split
      all_goals rfl
  | finish captured =>
    refine hi.keep (Peer.finishWriter_outside _ _ _ _).toKeeps ?_ ?_ rfl .rfl
    all_goals
      simp only [writeFinish, setPeer_peer, Peer.finishWriter]
      split <;> rfl
  | _ => exact ⟨hi.outbound, hi.inbound, hi.named, hi.promoted, hi.done⟩

theorem requestStep_exact {queueLimit : Nat} {r : Request} (hi : σ.Exact)
    (h : σ.requestStep queueLimit r = some τ) : τ.Exact := by
  cases requestStep_cases h with
  | aside aside => exact hi.aside aside
  | accept frame s =>
    simp only [Peer.wgTcpScheduleWriteLocked]
    split <;> exact ⟨hi.outbound, hi.inbound, hi.named, hi.promoted, hi.done⟩

theorem threadStep_exact {choice : Choice} {t : Thread} (hc : σ.Control)
    (htemp : σ.peer.tempPeer = false) (hi : σ.Exact) (h : σ.threadStep choice t = some τ) :
    τ.Exact := by
  cases threadStep_cases hc h with
  | aside aside => exact hi.aside aside
  | dead temp => simp [htemp] at temp
  | acquire k entry free lock device peer socks reader writer done =>
    have hnone (p : Holder → Bool) : σ.lock.any p ≠ true := by simp [free]
    refine hi.proceed (by rw [peer]) (by rw [peer]) done
      (by rw [peer]; exact fun hs => .inl ⟨hs, rfl⟩)
      (by rw [peer]; exact fun hs => ⟨hs, rfl⟩) (fun hl => absurd hl (hnone _))
      (fun hl => absurd hl (hnone _)) (fun hl => absurd hl (hnone _)) ?_
    rw [lock]
    exact fun hp => absurd hp (by simp [k.promotes_of_entry entry])
  | promotionClaim => exact ⟨hi.outbound, hi.inbound, hi.named, hi.promoted, hi.done⟩
  | stopBegin =>
    rw [htemp]
    exact ⟨fun _ => .inl rfl, fun _ => .inl rfl, fun _ _ => rfl, fun _ _ => rfl,
      (fun h => by cases h)⟩
  | stopFinish =>
    exact ⟨(fun h => by cases h), (fun h => by cases h), (fun h => by cases h),
      (fun _ h => by cases h), fun _ => rfl⟩

theorem lifecycleStep_exact {l : Lifecycle} (hc : σ.Control) (htemp : σ.peer.tempPeer = false)
    (hi : σ.Exact) (h : σ.lifecycleStep l = some τ) : τ.Exact := by
  cases lifecycleStep_cases hc h with
  | deviceDown => exact ⟨hi.outbound, hi.inbound, hi.named, hi.promoted, hi.done⟩
  | deviceUp done temp links =>
    have hin := hi.done done
    have hlock (p : Holder → Bool) (hp : ∀ k, k.passing = true → p k = false) :
        σ.lock.any p ≠ true := by
      intro hl
      obtain ⟨k, hk, hkp⟩ := (Option.any_eq_true _ _).mp hl
      have := (hc.stop.stopped htemp (by simp [done, StopPc.rank])).2 k hk
      simp [hp k this] at hkp
    unfold Peer.wgOpen
    rw [if_neg (by simp [hc.custody.quarantined])]
    refine ⟨?_, ?_, ?_, ?_, (fun h => by cases h)⟩
    · intro hs
      rcases hi.outbound hs with heq | hl | ⟨-, ⟨-, hnd⟩ | hl⟩
      · exact .inl heq
      · exact absurd hl (hlock _ fun k hk => by cases k <;> first | rfl | cases hk)
      · exact absurd done hnd
      · exact absurd hl (hlock _ fun k hk => by cases k <;> first | rfl | cases hk)
    all_goals simp [InboundExact, hin]
  | removePeer =>
    exact ⟨(fun h => by cases h), (fun h => by cases h), (fun h => by cases h),
      (fun _ h => by cases h), fun _ => rfl⟩
  | install s connectionId stage temp => simp [htemp] at temp
  | handover s free =>
    have hnone (p : Holder → Bool) : σ.lock.any p ≠ true := by simp [free]
    exact hi.proceed rfl rfl .rfl (fun hs => .inl ⟨hs, rfl⟩) (fun hs => ⟨hs, rfl⟩)
      (fun hl => absurd hl (hnone _)) (fun hl => absurd hl (hnone _))
      (fun hl => absurd hl (hnone _)) (fun h => by cases h)

/-! ## The holder of the lock -/

/-- The holder goes on; the links and the inbound claim are as before. -/
theorem Exact.claim (hi : σ.Exact) (hl : σ.lock = some h) (hlinks : τ.peer.links = σ.peer.links)
    (htcp : τ.peer.tcpStopping = σ.peer.tcpStopping)
    (hdone : τ.stop = .done ↔ σ.stop = .done)
    (hout : τ.peer.outboundRemove.scheduled = true →
      (σ.peer.outboundRemove.scheduled = true ∧
        τ.peer.outboundRemove.socket = σ.peer.outboundRemove.socket) ∨
      τ.peer.outboundRemove.socket = σ.peer.links.outboundSocket)
    (hin : τ.peer.inboundRemove = σ.peer.inboundRemove)
    (hsettles : h.settlesClaim = true → τ.peer.outboundRemove.scheduled = true →
      τ.peer.outboundRemove.socket = σ.peer.links.outboundSocket ∨
        τ.lock.any Holder.settlesClaim = true)
    (houtbound : h.clearsOutbound = true → τ.peer.outboundRemove.scheduled = true →
      τ.peer.outboundRemove.socket = σ.peer.links.outboundSocket ∨
        τ.lock.any Holder.clearsOutbound = true)
    (hinbound : h.clearsInbound = true → τ.lock.any Holder.clearsInbound = true)
    (hpromotes : τ.lock.any Holder.promotes = true → h.promotes = true) : τ.Exact := by
  have hany (p : Holder → Bool) : σ.lock.any p = p h := by rw [hl]; rfl
  refine hi.proceed hlinks htcp hdone hout (fun hs => ⟨hin ▸ hs, by rw [hin]⟩) ?_ ?_ ?_ ?_
  · rwa [hany]
  · rwa [hany]
  · rw [hany]
    exact fun hp => .inr (hinbound hp)
  · rwa [hany]

/-- The holder goes on; links and claims are as before. -/
theorem Exact.goes (hi : σ.Exact) (hl : σ.lock = some h) (hlinks : τ.peer.links = σ.peer.links)
    (htcp : τ.peer.tcpStopping = σ.peer.tcpStopping)
    (hdone : τ.stop = .done ↔ σ.stop = .done)
    (hout : τ.peer.outboundRemove.scheduled = σ.peer.outboundRemove.scheduled ∧
      τ.peer.outboundRemove.socket = σ.peer.outboundRemove.socket)
    (hin : τ.peer.inboundRemove = σ.peer.inboundRemove)
    (hsettles : h.settlesClaim = true → τ.lock.any Holder.settlesClaim = true)
    (houtbound : h.clearsOutbound = true → τ.lock.any Holder.clearsOutbound = true)
    (hinbound : h.clearsInbound = true → τ.lock.any Holder.clearsInbound = true)
    (hpromotes : τ.lock.any Holder.promotes = true → h.promotes = true) : τ.Exact :=
  hi.claim hl hlinks htcp hdone (fun hs => .inl ⟨hout.1 ▸ hs, hout.2⟩) hin
    (fun hp _ => .inr (hsettles hp))
    (fun hp _ => .inr (houtbound hp)) hinbound hpromotes

/-- Both claims are made anew. -/
theorem Exact.reclaim (hout : τ.peer.outboundRemove.scheduled = true →
      τ.peer.outboundRemove.socket = τ.peer.links.outboundSocket)
    (hin : τ.peer.inboundRemove.scheduled = true →
      τ.peer.inboundRemove.socket = τ.peer.links.inboundSocket)
    (hnamed : τ.peer.inboundRemove.scheduled = true → τ.peer.inboundRemove.socket = none →
      τ.peer.tcpStopping = true)
    (hpromotes : τ.lock.any Holder.promotes = true → τ.peer.inboundRemove.scheduled = true →
      τ.peer.tcpStopping = true)
    (hdone : τ.stop = .done → τ.peer.inboundRemove.scheduled = false) : τ.Exact :=
  ⟨fun hs => .inl (hout hs), fun hs => .inl (hin hs), hnamed, hpromotes, hdone⟩

theorem Passes.exact (hp : σ.Passes h k) (hl : σ.lock = some h) (hi : σ.Exact) :
    (σ.hold k).Exact := by
  cases hp with
  | unwindUnowned caller s links =>
    -- The claim of a socket that was never published is forgotten by the unwinding.
    have hin : (σ.hold (.unwindFinish caller)).InboundExact := by
      simpa [InboundExact, Stopping, hl, Holder.clearsInbound] using hi.inbound
    refine ⟨fun _ => .inr (.inr ⟨?_, .inr rfl⟩), hin, hi.named, (fun h => by cases h), hi.done⟩
    simp [links, Links.none]
  | _ =>
    refine hi.goes hl rfl rfl .rfl ⟨rfl, rfl⟩ rfl ?_ ?_ ?_ ?_
    all_goals
      intro hp
      first | rfl | cases hp

/-- The socket of one direction is released; its claim is cleared by the releasing thread, or by the
stop. -/
theorem release_exact {s : SockId} {owner : Owner} (hc : σ.Control) (hi : σ.Exact)
    (hl : σ.lock = some (.release s owner)) (hnotDone : owner = .rollback → σ.stop ≠ .done)
    (hlinks : τ.peer.links = .none) (htcp : τ.peer.tcpStopping = σ.peer.tcpStopping)
    (hstop : τ.stop = σ.stop) (hout : τ.peer.outboundRemove = σ.peer.outboundRemove)
    (hinb : τ.peer.inboundRemove = σ.peer.inboundRemove)
    (hlock : τ.lock = some (.purge s owner)) : τ.Exact := by
  obtain ⟨⟨hon, -, hok, -⟩, hin⟩ := hc.holder _ hl
  have hstopping (h : owner.thread = .stop) : τ.Stopping := by
    have hstop' : σ.stop = .inside := by simpa [Holder.thread, h, Inside] using hin
    refine ⟨htcp.trans (hc.stop.stopping (by simp [hstop', StopPc.rank])), ?_⟩
    simp [hstop, hstop']
  refine ⟨?_, ?_, ?_, ?_, ?_⟩
  · rw [OutboundExact, hout, hlinks, hlock]
    intro hs
    cases owner with
    | unwind | outbound | promoteOutbound => exact .inr (.inr ⟨rfl, .inr rfl⟩)
    | stopOutbound | stopInbound | destroy => exact .inr (.inr ⟨rfl, .inl (hstopping rfl)⟩)
    | inbound | promoteInbound | rollback =>
      rcases hi.outbound hs with heq | hset | ⟨-, ⟨ht, hd⟩ | hclear⟩
      · exact .inl (heq.trans (by rw [hon]; rfl))
      · simp [hl, Holder.settlesClaim] at hset
      · exact .inr (.inr ⟨rfl, .inl ⟨htcp.trans ht, hstop ▸ hd⟩⟩)
      · simp [hl, Holder.clearsOutbound] at hclear
  · rw [InboundExact, hinb, hlinks, hlock]
    intro hs
    cases owner with
    | inbound | promoteInbound => exact .inr ⟨rfl, .inr rfl⟩
    | stopOutbound | stopInbound | destroy => exact .inr ⟨rfl, .inl (hstopping rfl)⟩
    | rollback =>
      have ht := hi.promoted (by rw [hl]; rfl) hs
      exact .inr ⟨rfl, .inl ⟨htcp.trans ht, hstop ▸ hnotDone rfl⟩⟩
    | unwind | outbound | promoteOutbound =>
      rcases hi.inbound hs with heq | ⟨-, ⟨ht, hd⟩ | hclear⟩
      · exact .inl (heq.trans (by rw [hon]; rfl))
      · exact .inr ⟨rfl, .inl ⟨htcp.trans ht, hstop ▸ hd⟩⟩
      · simp [hl, Holder.clearsInbound] at hclear
  · rw [hinb, htcp]
    exact hi.named
  · rw [hlock]
    intro h
    cases h
  · rw [hstop, hinb]
    exact hi.done

theorem LockedMove.exact (hm : σ.LockedMove h τ) (hl : σ.lock = some h) (hc : σ.Control)
    (htemp : σ.peer.tempPeer = false) (hi : σ.Exact) : τ.Exact := by
  obtain ⟨hok, hin⟩ := hc.holder h hl
  -- A promotion is not inside the lock once a stop is through.
  have notDone (hpc : σ.promotion = .inside) {P : Prop} (hd : σ.stop = .done) : P := by
    have := (hc.stop.promotion htemp (by simp [hd, StopPc.rank])).1
    simp [hpc] at this
  cases hm with
  | pass passes => exact passes.exact hl hi
  | dial | create | start | outboundClean | outboundStale | outboundUnlock | inboundUnlock
  | promoteCheck | promoteUnlock | bootstrapUnlock | stopPurgeNone | cancelRead | cancelWrite =>
    exact hi.goes hl rfl rfl .rfl ⟨rfl, rfl⟩ rfl (fun h => by cases h) (fun h => by cases h)
      (fun h => by cases h) (fun h => by cases h)
  | connectPublish caller s live =>
    -- The claim, if any, is older than the socket.
    have hinbound : σ.InboundExact := hi.inbound
    refine ⟨fun _ => .inr (.inl rfl), ?_, hi.named, (fun h => by cases h), hi.done⟩
    simpa [InboundExact, Stopping, hok.1, hl, Holder.clearsInbound, Links.none, Links.on] using
      hinbound
  | setup setsUp live free callback =>
    cases setsUp with
    | connect caller s =>
      refine hi.claim hl rfl rfl .rfl (fun hs => .inl ⟨hs, rfl⟩) rfl (fun _ hs => ?_)
        (fun h => by cases h) (fun h => by cases h)
          (fun h => by cases h)
      exact absurd (free.symm.trans hs) (by simp)
    | promote s =>
      exact hi.goes hl rfl rfl .rfl ⟨rfl, rfl⟩ rfl (fun h => by cases h) (fun h => by cases h)
        (fun h => by cases h) (fun h => by cases h)
    | install s => simp [Inside, Holder.thread, htemp] at hin
  | connectFinish caller s first p finish =>
    obtain ⟨-, -, conn, -, rfl⟩ := Peer.connectFinish_some hok.1 finish
    refine hi.claim hl rfl rfl .rfl ?_ rfl (fun h => by cases h) (fun h => by cases h)
      (fun h => by cases h) (fun h => by cases h)
    simp only [hold_peer, setPeer_peer]
    split
    · exact fun _ => .inr (by simp [Removal.claim, hok.1, Links.on])
    · exact fun hs => .inl ⟨hs, rfl⟩
  | unwindClaim caller s links =>
    have hexact : some s = σ.peer.links.outboundSocket := by rw [links]; rfl
    exact hi.claim hl rfl rfl .rfl (fun _ => .inr hexact) rfl (fun _ _ => .inl hexact)
      (fun h => by cases h) (fun h => by cases h)
          (fun h => by cases h)
  | unwindFinish caller =>
    have hexact : (σ.peer.unwindFinish σ.device).2.outboundRemove.socket =
        σ.peer.links.outboundSocket := by
      rw [show σ.peer.links = .none from hok]
      rfl
    split
    all_goals
      exact hi.claim hl rfl rfl .rfl (fun _ => .inr hexact) rfl (fun h => by cases h)
        (fun _ _ => .inl hexact) (fun h => by cases h)
          (fun h => by cases h)
  | unwindQueue caller =>
    unfold Peer.unwindQueue
    split <;> exact hi.goes hl rfl rfl .rfl ⟨rfl, rfl⟩ rfl (fun h => by cases h)
      (fun h => by cases h) (fun h => by cases h) (fun h => by cases h)
  | connectReturn caller failed greet pc =>
    refine hi.goes hl ?_ ?_ ?_ ?_ ?_ (fun h => by cases h) (fun h => by cases h)
      (fun h => by cases h) (fun h => by cases h) <;> simp
  | outboundFinish retryNeeded reclaim =>
    exact hi.claim hl rfl rfl .rfl (fun h => by cases h) rfl (fun h => by cases h)
      (fun _ h => by cases h) (fun h => by cases h) (fun h => by cases h)
  | inboundFinish =>
    have hany (p : Holder → Bool) : σ.lock.any p = p (.inboundFinish false) := by rw [hl]; rfl
    refine hi.proceed rfl rfl .rfl (fun hs => .inl ⟨hs, rfl⟩) (fun h => by cases h) ?_ ?_
      (fun _ => .inl rfl) (fun h => by cases h)
    all_goals
      rw [hany]
      intro h
      cases h
  | rearm rearms =>
    rw [Peer.rearm_eq]
    cases rearms <;> exact hi.goes hl rfl rfl .rfl ⟨rfl, rfl⟩ rfl (fun h => by cases h)
      (fun h => by cases h) (fun h => by cases h) (fun h => by cases h)
  | promoteFree | promoteClaim =>
    refine .reclaim (fun _ => rfl) (fun _ => rfl) (fun hs hnone => ?_) (fun h => by cases h)
      (notDone hin)
    have hs : σ.peer.links.inboundSocket.isSome = true := hs
    have hnone : σ.peer.links.inboundSocket = none := hnone
    simp [hnone] at hs
  | promotePublish s =>
    exact ⟨(fun h => by cases h), (fun h => by cases h), (fun h => by cases h), fun _ =>
      (fun h => by cases h), fun _ => rfl⟩
  | bootstrapTake k next =>
    rcases next with rfl | ⟨s, rfl⟩ <;>
      exact hi.goes hl rfl rfl .rfl ⟨rfl, rfl⟩ rfl (fun h => by cases h) (fun h => by cases h)
        (fun h => by cases h) (fun h => by cases h)
  | stopReclaim =>
    have hstop : σ.stop = .inside := hin
    have hstopping := hc.stop.stopping (by simp [hstop, StopPc.rank])
    exact .reclaim (fun _ => rfl) (fun _ => rfl) (fun _ _ => hstopping) (fun h => by cases h)
      fun hd => absurd (hstop.symm.trans hd) (by simp)
  | stopPurge s inbound links =>
    exact hi.goes hl rfl rfl .rfl ⟨rfl, rfl⟩ rfl (fun h => by cases h) (fun h => by cases h)
      (fun h => by cases h) (fun h => by cases h)
  | stopUnlock =>
    have hstop : σ.stop = .inside := hin
    exact hi.goes hl rfl rfl (by simp [hstop]) ⟨rfl, rfl⟩ rfl (fun h => by cases h)
      (fun h => by cases h) (fun h => by cases h) (fun h => by cases h)
  | clearFlags plan =>
    have hkeep : (plan.clear σ.peer).links = σ.peer.links ∧
        (plan.clear σ.peer).tcpStopping = σ.peer.tcpStopping ∧
        (plan.clear σ.peer).outboundRemove = σ.peer.outboundRemove ∧
        (plan.clear σ.peer).inboundRemove = σ.peer.inboundRemove := by
      cases plan <;> exact ⟨rfl, rfl, rfl, rfl⟩
    obtain ⟨hlinks, htcp, hout, hinb⟩ := hkeep
    refine hi.goes hl hlinks htcp .rfl (by simp [hout]) hinb (fun h => by cases h)
      (fun h => by cases h) (fun h => by cases h) ?_
    cases plan with
    | promote new i o => cases i <;> cases o <;> intro h <;> cases h
    | destroy s => cases s <;> intro h <;> cases h
    | _ =>
      intro h
      cases h
  | reset s owner callback =>
    refine hi.goes hl rfl rfl .rfl ⟨rfl, rfl⟩ rfl (fun h => by cases h) (fun h => by cases h)
      (fun h => by cases h) ?_
    obtain ⟨-, -, hrollback, -⟩ := hok
    intro hp
    cases owner <;> first | cases hp; done | exact absurd rfl hrollback
  | release s owner =>
    refine release_exact hc hi hl ?_ rfl rfl rfl rfl rfl rfl
    rintro rfl
    exact fun hd => notDone hin hd
  | purge s owner =>
    exact hi.goes hl rfl rfl .rfl ⟨rfl, rfl⟩ rfl (fun h => by cases h) id id (fun h => by cases h)
  | shutdown s owner =>
    cases owner with
    | promoteInbound new old =>
      obtain ⟨-, rfl, -⟩ := hok
      exact hi.goes hl rfl rfl .rfl ⟨rfl, rfl⟩ rfl (fun h => by cases h) (fun h => by cases h)
        (fun _ => rfl) (fun h => by cases h)
    | stopOutbound other =>
      obtain ⟨-, rfl⟩ := hok
      exact hi.goes hl rfl rfl .rfl ⟨rfl, rfl⟩ rfl (fun h => by cases h) (fun h => by cases h)
        (fun h => by cases h) (fun h => by cases h)
    | promoteOutbound | unwind | outbound =>
      exact hi.goes hl rfl rfl .rfl ⟨rfl, rfl⟩ rfl (fun h => by cases h) (fun _ => rfl)
        (fun h => by cases h) (fun h => by cases h)
    | inbound =>
      exact hi.goes hl rfl rfl .rfl ⟨rfl, rfl⟩ rfl (fun h => by cases h) (fun h => by cases h)
        (fun _ => rfl) (fun h => by cases h)
    | stopInbound | rollback | destroy =>
      exact hi.goes hl rfl rfl .rfl ⟨rfl, rfl⟩ rfl (fun h => by cases h) (fun h => by cases h)
        (fun h => by cases h) (fun h => by cases h)
  | installData | installFinish | installFail | handoverNothing | handoverClaim | handoverReset
  | handoverDetach => simp [Inside, Holder.thread, htemp] at hin
  | destroyed => simp [hok.2] at htemp

/-! ## Every step -/

theorem step_exact {A : SkbAllocator} {queueLimit : Nat} {a : Action} (hc : σ.Control)
    (htemp : σ.peer.tempPeer = false) (hi : σ.Exact) (h : σ.step A queueLimit a = some τ) :
    τ.Exact := by
  cases a with
  | kernel e =>
    obtain ⟨sk, -, rfl⟩ := Option.map_eq_some_iff.mp h
    exact ⟨hi.outbound, hi.inbound, hi.named, hi.promoted, hi.done⟩
  | callback s => exact callbackStep_exact hc htemp hi h
  | read choice => exact readStep_exact hi h
  | write choice => exact writeStep_exact hi h
  | request r => exact requestStep_exact hi h
  | thread t choice => exact threadStep_exact hc htemp hi h
  | locked choice =>
    obtain ⟨k, hk, h⟩ := Option.bind_eq_some_iff.mp h
    exact (lockedStep_cases hc hk h).exact hk hc htemp hi
  | lifecycle l => exact lifecycleStep_exact hc htemp hi h

/-- What holds of a configured peer at every step. -/
structure Configured (σ : State) : Prop where
  control : σ.Control
  tempPeer : σ.peer.tempPeer = false
  exact : σ.Exact

theorem configured_init (addressing : Addressing) : (State.init false addressing).Configured :=
  ⟨control_init false addressing, rfl, exact_init false addressing⟩

theorem Configured.step {A : SkbAllocator} {queueLimit : Nat} {a : Action} (hi : σ.Configured)
    (h : σ.step A queueLimit a = some τ) : τ.Configured :=
  ⟨step_control hi.control h, (step_tempPeer hi.control h).trans hi.tempPeer,
    step_exact hi.control hi.tempPeer hi.exact h⟩

variable {A : SkbAllocator} {queueLimit : Nat} {addressing : Addressing} {as : List Action}

theorem Reaches.configured (h : Reaches A queueLimit false addressing as σ) : σ.Configured :=
  Transition.run_invariant (fun _ _ _ hi h => hi.step h) (configured_init addressing) h

/-! ## Results -/

/-- While nobody holds `tcp_socket_lock`, a claim names the socket of its direction, or a stop has
released that socket. -/
theorem claims_exact (h : Reaches A queueLimit false addressing as σ) (hfree : σ.lock = none) :
    (σ.peer.outboundRemove.scheduled = true →
      σ.peer.outboundRemove.socket = σ.peer.links.outboundSocket ∨
        (σ.peer.tcpStopping = true ∧ σ.peer.links.outboundSocket = none)) ∧
    (σ.peer.inboundRemove.scheduled = true →
      σ.peer.inboundRemove.socket = σ.peer.links.inboundSocket ∨
        (σ.peer.tcpStopping = true ∧ σ.peer.links.inboundSocket = none)) := by
  have hi := h.configured.exact
  have hnone (p : Holder → Bool) : σ.lock.any p ≠ true := by simp [hfree]
  constructor
  · intro hs
    rcases hi.outbound hs with heq | hl | ⟨hlinks, hstop | hl⟩
    · exact .inl heq
    · exact absurd hl (hnone _)
    · exact .inr ⟨hstop.1, hlinks⟩
    · exact absurd hl (hnone _)
  · intro hs
    rcases hi.inbound hs with heq | ⟨hlinks, hstop | hl⟩
    · exact .inl heq
    · exact .inr ⟨hstop.1, hlinks⟩
    · exact absurd hl (hnone _)

/-- The first accepted socket is promoted, with its callbacks. -/
def inboundRun : List Action :=
  [.kernel (.accept 0 1), .request (.authenticated 1)] ++
    List.replicate 4 (.thread .promotion ⟨true, 0⟩) ++ List.replicate 7 (.locked ⟨true, 0⟩) ++
    [.thread .promotion ⟨true, 0⟩]

theorem claims_exact_closed : ∃ σ,
    Reaches exactAllocator 4 false .unset
      (inboundRun ++ [.kernel (.transition 0 .closeWait), .callback 0, .callback 0]) σ ∧
    σ.peer.inboundRemove.scheduled = true ∧ σ.peer.links.inboundSocket = some 0 ∧
    σ.peer.inboundRemove.socket = σ.peer.links.inboundSocket := by
  have hrun : ((Transition.run (step exactAllocator 4) (.init false .unset)
      (inboundRun ++ [.kernel (.transition 0 .closeWait), .callback 0, .callback 0])).any fun σ =>
        decide (σ.lock = none ∧ σ.peer.inboundRemove.scheduled = true ∧
          σ.peer.links.inboundSocket = some 0)) = true := by
    decide +kernel
  obtain ⟨σ, hσ, hcheck⟩ := Transition.exists_run_of_any hrun
  obtain ⟨hfree, hs, hlinks⟩ := of_decide_eq_true hcheck
  have hexact := (claims_exact hσ hfree).2 hs
  exact ⟨σ, hσ, hs, hlinks, hexact.resolve_right (by simp [hlinks])⟩

/-- A stop gives the lock back before it clears its claim on the socket it has released. -/
theorem claims_exact_fails : ∃ σ,
    Reaches exactAllocator 4 false .unset
      (inboundRun ++ List.replicate 7 (.thread .stop ⟨true, 0⟩) ++
        List.replicate 12 (.locked ⟨true, 0⟩)) σ ∧
    σ.lock = none ∧ σ.peer.inboundRemove.scheduled = true ∧
    σ.peer.inboundRemove.socket = some 0 ∧ σ.peer.links.inboundSocket = none := by
  have hrun : ((Transition.run (step exactAllocator 4) (.init false .unset)
      (inboundRun ++ List.replicate 7 (.thread .stop ⟨true, 0⟩) ++
        List.replicate 12 (.locked ⟨true, 0⟩))).any fun σ =>
      decide (σ.lock = none ∧ σ.peer.inboundRemove.scheduled = true ∧
        σ.peer.inboundRemove.socket = some 0 ∧ σ.peer.links.inboundSocket = none)) = true := by
    decide +kernel
  obtain ⟨σ, hσ, hcheck⟩ := Transition.exists_run_of_any hrun
  exact ⟨σ, hσ, of_decide_eq_true hcheck⟩

end State

end WgTcp
