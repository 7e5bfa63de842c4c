import WgTcp.Peer.Connection
import WgTcp.Peer.RetryFlag

/-!
# A dial is never left alone

A peer that is dialing has `tcp_pending` set, and every path refuses to
connect while it is. So somebody has to see to it until the connection is
established or torn down: the retry work that bounds the attempt, the removal
of the outbound socket, or the thread that holds `tcp_socket_lock`. The retry
flag may lie about its work only once the attempt is over.
-/

namespace WgTcp

/-- The holder releases the socket, or has the outbound one claimed again. -/
def Holder.drives : Holder → Bool
  | .drain _ _ _ | .cancelRead _ | .cancelWrite _ | .clearFlags _ | .reset _ _ | .release _ _
  | .outboundView _ => true
  | .outboundFinish _ reclaim _ => reclaim
  | .outboundRearm post | .outboundUnlock post => post.reclaim
  | _ => false

/-- The removal worker is on its way to the lock, or claims the outbound socket again. -/
def OutboundPc.reclaims : OutboundPc → Bool
  | .cancelRetry _ | .wait _ => true
  | .post note => note.reclaim
  | _ => false

theorem OutboundPc.reclaims_of_starts {pc : OutboundPc} (h : pc.starts = true) :
    pc.reclaims = true := by
  cases pc <;> first | rfl | cases h

/-- What is left to a callback once the attempt is over: to cancel the retry, or to queue the
removal of the outbound socket. -/
def StateTail.ends (tail : StateTail) (inbound : Bool) : Prop :=
  tail.cancelRetry = true ∨ (tail.removal = true ∧ inbound = false)

/-- The retry work of an attempt that is not established claims the outbound socket. -/
theorem Peer.beginRetry_claims {d : Device} {p : Peer} (hlive : p.live d = true)
    (htcp : d.transport = .tcp) (hest : p.conn.established = false)
    (hpending : p.conn.pending = true) :
    (p.takeRetryWork.beginRetry d).2.outboundRemove.scheduled = true := by
  simp only [Peer.live, Bool.and_eq_true, Bool.not_eq_true'] at hlive
  simp only [beginRetry, takeRetryWork, Peer.live, hlive, htcp, hest, hpending]
  simp
  split <;> simp_all [Removal.claim]

namespace State

variable {σ τ : State} {h k : Holder}

/-! ## How an attempt begins and ends -/

/-- An attempt begins without a socket; and where a socket is given up, so is the retry. -/
structure Attempts (σ τ : State) : Prop where
  pending : τ.peer.conn.pending = true → σ.peer.conn.pending = true ∨
    (σ.peer.links = .none ∧ τ.peer.conn.connecting = true)
  links : σ.peer.links ≠ .none → τ.peer.retry.scheduled = true → τ.peer.links ≠ .none

theorem Attempts.of_eq (hconn : τ.peer.conn = σ.peer.conn) (hlinks : τ.peer.links = σ.peer.links) :
    σ.Attempts τ := by
  constructor
  · rw [hconn]
    exact .inl
  · rw [hlinks]
    exact fun h _ => h

/-- The attempt is over, or has never begun. -/
theorem Attempts.over (hpending : τ.peer.conn.pending = false)
    (hlinks : σ.peer.links ≠ .none → τ.peer.retry.scheduled = true → τ.peer.links ≠ .none) :
    σ.Attempts τ :=
  ⟨fun h => (by simp [hpending] at h), hlinks⟩

theorem Aside.attempts (ha : σ.Aside τ) : σ.Attempts τ :=
  .of_eq ha.peer.conn ha.peer.links

theorem callbackStep_attempts {s : SockId} (hc : σ.Configured) (h : σ.callbackStep s = some τ) :
    σ.Attempts τ := by
  have hm := callbackStep_cases h
  have hlinks := hm.outside.links
  cases hm with
  | dataReady =>
    refine .of_eq ?_ hlinks
    dsimp only [endCallback, setSock_peer, setPeer_peer, Peer.wgTcpDataReady]
    split <;> rfl
  | writeSpace =>
    refine .of_eq ?_ hlinks
    dsimp only [setSock_peer, setPeer_peer, Peer.wgTcpWriteSpace]
    rw [Peer.wgTcpScheduleWriteLocked_eq]
    split <;> rfl
  | stateSection inbound hook due =>
    obtain ⟨hon, -⟩ := hc.control.custody.on_of_hook hook
    have hsc := Peer.stateChangeSection_cases (σ.socks s).skState hc.tempPeer hon
    exact ⟨fun hp => .inl (hsc.pending hp), fun h _ => hlinks ▸ h⟩
  | tailBootstrap => exact .of_eq (Peer.wgTcpQueueCarrierBootstrap_aside σ.device _ _).conn hlinks
  | tailRemoval inbound => exact .of_eq (Peer.queueRemoval_aside _ _ _ _).conn hlinks
  | _ => exact .of_eq rfl rfl

theorem writeStep_attempts {choice : SendChoice} (h : σ.writeStep choice = some τ) :
    σ.Attempts τ := by
  cases writeStep_cases h with
  | dequeue s =>
    unfold writeDequeue
    split <;> exact .of_eq rfl rfl
  | fail s =>
    unfold writeFail Peer.wgTcpFailExactSocket
    repeat' split
    all_goals first | exact .of_eq rfl rfl | exact .over rfl fun h _ => h
  | finish captured =>
    unfold writeFinish Peer.finishWriter
    split <;> exact .of_eq rfl rfl
  | _ => exact .of_eq rfl rfl

theorem LockedMove.attempts (hm : σ.LockedMove h τ) (hl : σ.lock = some h) (hc : σ.Configured) :
    σ.Attempts τ := by
  obtain ⟨hok, hin⟩ := hc.control.holder h hl
  cases hm with
  | dial caller live endpoint free links =>
    exact ⟨fun _ => .inr ⟨links, rfl⟩, fun h => absurd links h⟩
  | connectPublish => exact ⟨.inl, fun _ _ => (fun h => by cases h)⟩
  | connectFinish caller s first p finish =>
    obtain ⟨-, -, conn, rfl, rfl⟩ := Peer.connectFinish_some hok.1 finish
    refine ⟨?_, fun h _ => h⟩
    dsimp only [hold_peer, setPeer_peer]
    split
    · intro h
      cases h
    · exact .inl
  | unwindFinish => exact .over rfl fun h _ => h
  | unwindQueue =>
    unfold Peer.unwindQueue
    split <;> exact .of_eq rfl rfl
  | connectReturn => exact .of_eq (by simp) (by simp)
  | rearm =>
    rw [Peer.rearm_eq]
    exact .of_eq rfl rfl
  | promotePublish => exact .over rfl fun _ _ => (fun h => by cases h)
  | clearFlags plan => cases plan <;> exact .of_eq rfl rfl
  | release => exact .over rfl fun _ => (fun h => by cases h)
  | installData | installFinish | installFail | handoverNothing | handoverClaim | handoverReset
  | handoverDetach => simp [Inside, Holder.thread, hc.tempPeer] at hin
  | destroyed => exact absurd (hc.tempPeer.symm.trans hok.2) (by simp)
  | _ => exact .of_eq rfl rfl

theorem step_attempts {A : SkbAllocator} {queueLimit : Nat} {a : Action} (hc : σ.Configured)
    (h : σ.step A queueLimit a = some τ) : σ.Attempts τ := by
  cases a with
  | kernel e =>
    obtain ⟨sk, -, rfl⟩ := Option.map_eq_some_iff.mp h
    exact .of_eq rfl rfl
  | callback s => exact callbackStep_attempts hc h
  | read choice =>
    cases readStep_cases h with
    | finish =>
      unfold readFinish Peer.finishReader
      split <;> exact .of_eq rfl rfl
    | _ => exact .of_eq rfl rfl
  | write choice => exact writeStep_attempts h
  | request r =>
    cases requestStep_cases h with
    | accept =>
      rw [Peer.wgTcpScheduleWriteLocked_eq]
      exact .of_eq rfl rfl
    | aside aside => exact aside.attempts
  | thread t choice =>
    cases threadStep_cases hc.control h with
    | aside aside => exact aside.attempts
    | acquire k entry free lock device peer => exact .of_eq (by rw [peer]) (by rw [peer])
    | stopBegin =>
      rw [hc.tempPeer]
      exact .of_eq rfl rfl
    | stopFinish => exact .over rfl fun h _ => h
    | _ => exact .of_eq rfl rfl
  | locked choice =>
    obtain ⟨k, hk, h⟩ := Option.bind_eq_some_iff.mp h
    exact (lockedStep_cases hc.control hk h).attempts hk hc
  | lifecycle l =>
    cases lifecycleStep_cases hc.control h with
    | deviceUp =>
      unfold Peer.wgOpen
      split <;> exact .of_eq rfl rfl
    | install s connectionId stage temp => exact absurd (hc.tempPeer.symm.trans temp) (by simp)
    | _ => exact .of_eq rfl rfl

/-! ## The tail of a state callback -/

/-- A callback that has such a thing left to do has ended the attempt. -/
def TailOk (σ : State) : Prop :=
  ∀ s inbound tail, (σ.socks s).userData = some inbound →
    (σ.socks s).callback = some (.stateTail tail) → tail.ends inbound → σ.peer.conn.pending = false

/-- The tails after a step are those from before, or parts of them, or that of a section that ended
the attempt. -/
def Tails (σ τ : State) : Prop :=
  ∀ s inbound tail, (τ.socks s).userData = some inbound →
    (τ.socks s).callback = some (.stateTail tail) → tail.ends inbound →
    τ.peer.conn.pending = false ∨ ∃ tail', (σ.socks s).userData = some inbound ∧
      (σ.socks s).callback = some (.stateTail tail') ∧ tail'.ends inbound

theorem Tails.of_socks (h : ∀ s, (τ.socks s).userData = (σ.socks s).userData ∧
    (τ.socks s).callback = (σ.socks s).callback) : σ.Tails τ :=
  fun s _ tail hook due ht => .inr ⟨tail, (h s).1 ▸ hook, (h s).2 ▸ due, ht⟩

/-- A step on one socket. -/
theorem Tails.update {s : SockId} {sk : Sock} (hsocks : τ.socks = Function.update σ.socks s sk)
    (h : ∀ inbound tail, sk.userData = some inbound → sk.callback = some (.stateTail tail) →
      tail.ends inbound →
      τ.peer.conn.pending = false ∨ ∃ tail', (σ.socks s).userData = some inbound ∧
        (σ.socks s).callback = some (.stateTail tail') ∧ tail'.ends inbound) : σ.Tails τ := by
  intro t inbound tail hook due ht
  rw [hsocks] at hook due
  by_cases hts : t = s
  · subst hts
    exact h inbound tail (by simpa using hook) (by simpa using due) ht
  · exact .inr ⟨tail, by simpa [hts] using hook, by simpa [hts] using due, ht⟩

/-- The callback of one socket is over, or not in its tail. -/
theorem Tails.end {s : SockId} {sk : Sock} (hsocks : τ.socks = Function.update σ.socks s sk)
    (h : ∀ tail, sk.callback ≠ some (.stateTail tail)) : σ.Tails τ :=
  .update hsocks fun _ tail _ due => absurd due (h tail)

/-- A step on one socket that leaves its callback alone. -/
theorem Tails.keep {s : SockId} {sk : Sock} (hsocks : τ.socks = Function.update σ.socks s sk)
    (hhook : ∀ inbound, sk.userData = some inbound → (σ.socks s).userData = some inbound)
    (hcallback : sk.callback = (σ.socks s).callback) : σ.Tails τ :=
  .update hsocks fun inbound tail hook due ht => .inr
    ⟨tail, hhook inbound hook, hcallback ▸ due, ht⟩

theorem TailOk.step (hi : σ.TailOk) (hc : σ.Control) (ha : σ.Attempts τ) (ht : σ.Tails τ) :
    τ.TailOk := by
  intro s inbound tail hook due hleft
  rcases ht s inbound tail hook due hleft with hended | ⟨tail', hook', due', hleft'⟩
  · exact hended
  · -- A new attempt does not begin while the socket of the old one has its callbacks.
    by_contra hpending
    rcases ha.pending (by simpa using hpending) with hp | ⟨hnone, -⟩
    · simp [hi s inbound tail' hook' due' hleft'] at hp
    · have := (hc.custody.on_of_hook hook').1
      rw [hnone] at this
      cases this

theorem callbackStep_tails {s : SockId} (hc : σ.Configured) (h : σ.callbackStep s = some τ) :
    σ.Tails τ := by
  cases callbackStep_cases h with
  | plain | plainWriteSpace | dataReady | writeSpaceTail | stateSkip | tailEnd | tailRemoval =>
    exact .end rfl (by simp)
  | writeSpace | stateEnter => exact .end rfl (by simp)
  | stateSection inbound hook due =>
    obtain ⟨hon, -⟩ := hc.control.custody.on_of_hook hook
    have hsc := Peer.stateChangeSection_cases (σ.socks s).skState hc.tempPeer hon
    refine .update rfl fun inbound' tail hook' due' ht => .inl ?_
    obtain rfl : inbound = inbound' := by simpa using hook.symm.trans hook'
    obtain rfl := Callback.stateTail.inj (Option.some.inj due')
    exact hsc.ended ht
  | tailRetry inbound hook tail due =>
    refine .update rfl fun inbound' tail' hook' due' ht => .inr ⟨tail, hook', due, ?_⟩
    obtain rfl := Callback.stateTail.inj (Option.some.inj due')
    exact ht.imp (fun h => by cases h) id
  | tailBootstrap inbound hook tail due =>
    refine .update rfl fun inbound' tail' hook' due' ht => .inr ⟨tail, hook', due, ?_⟩
    obtain rfl := Callback.stateTail.inj (Option.some.inj due')
    exact ht

theorem kernelStep_tails {e : KernelEvent} (h : σ.kernelStep e = some τ) : σ.Tails τ := by
  obtain ⟨sk, hsk, rfl⟩ := Option.map_eq_some_iff.mp h
  cases e with
  | accept s connectionId =>
    obtain ⟨-, ⟨⟩⟩ := Option.ite_none_right_eq_some.mp hsk
    exact .keep rfl (fun _ => id) rfl
  | arrive | transition =>
    obtain ⟨-, ⟨⟩⟩ := Option.ite_none_right_eq_some.mp hsk
    exact .end rfl (by simp)
  | room s =>
    obtain ⟨-, ⟨⟩⟩ := Option.ite_none_right_eq_some.mp hsk
    refine .end rfl fun tail => ?_
    dsimp only
    split <;> simp
  | foreignRead s n =>
    simp only [Sock.kernel] at hsk
    split at hsk
    · cases hsk
      exact .keep rfl (fun _ => id) rfl
    · cases hsk

theorem LockedMove.tails (hm : σ.LockedMove h τ) : σ.Tails τ := by
  cases hm with
  | create | connectPublish | promotePublish | start | shutdown => exact .keep rfl (fun _ => id) rfl
  | setup setsUp live free callback =>
    refine .end rfl fun tail (htail : (σ.socks _).callback = _) => ?_
    simp [Sock.callbackRunning, htail, Callback.running] at callback
  | reset | handoverReset => exact .keep rfl (fun _ => (fun h => by cases h)) rfl
  | connectReturn => exact .of_socks (by simp)
  | _ => exact .of_socks fun _ => ⟨rfl, rfl⟩

theorem step_tails {A : SkbAllocator} {queueLimit : Nat} {a : Action} (hc : σ.Configured)
    (h : σ.step A queueLimit a = some τ) : σ.Tails τ := by
  cases a with
  | kernel e => exact kernelStep_tails h
  | callback s => exact callbackStep_tails hc h
  | read choice =>
    cases readStep_cases h with
    | pass => exact .keep rfl (fun _ => id) rfl
    | _ => exact .of_socks fun _ => ⟨rfl, rfl⟩
  | write choice =>
    cases writeStep_cases h with
    | dequeue s =>
      unfold writeDequeue
      split <;> exact .of_socks fun _ => ⟨rfl, rfl⟩
    | send | arm => exact .keep rfl (fun _ => id) rfl
    | _ => exact .of_socks fun _ => ⟨rfl, rfl⟩
  | request r =>
    cases requestStep_cases h with
    | accept => exact .keep rfl (fun _ => id) rfl
    | aside aside => exact .of_socks fun s => by rw [aside.socks]; exact ⟨rfl, rfl⟩
  | thread t choice =>
    cases threadStep_cases hc.control h with
    | aside aside => exact .of_socks fun s => by rw [aside.socks]; exact ⟨rfl, rfl⟩
    | acquire k entry free lock device peer socks =>
      exact .of_socks fun s => by rw [socks]; exact ⟨rfl, rfl⟩
    | promotionClaim => exact .keep rfl (fun _ => id) rfl
    | _ => exact .of_socks fun _ => ⟨rfl, rfl⟩
  | locked choice =>
    obtain ⟨k, hk, h⟩ := Option.bind_eq_some_iff.mp h
    exact (lockedStep_cases hc.control hk h).tails
  | lifecycle l =>
    cases lifecycleStep_cases hc.control h with
    | install => exact .keep rfl (fun _ => id) rfl
    | _ => exact .of_socks fun _ => ⟨rfl, rfl⟩

/-- The retry flag lies about its work, but the attempt that it was set for is over. -/
def Wedged (σ : State) : Prop := σ.peer.links ≠ .none ∧ σ.peer.conn.pending = false

theorem Attempts.wedged (ha : σ.Attempts τ) (h : σ.Wedged) (hlinks : τ.peer.links ≠ .none) :
    τ.Wedged := by
  refine ⟨hlinks, ?_⟩
  by_contra hpending
  rcases ha.pending (by simpa using hpending) with hp | ⟨hnone, -⟩
  · simp [h.2] at hp
  · exact h.1 hnone

/-- The callback that cancels the retry work has ended the attempt. -/
theorem TailOk.cancels (hi : σ.TailOk) (hc : σ.Control) {a : Action}
    (hcancel : σ.cancelsRetry a = true) : σ.Wedged ∧ ∃ s, a = .callback s := by
  unfold cancelsRetry at hcancel
  split at hcancel
  · rename_i s
    split at hcancel
    · rename_i inbound tail hook due
      refine ⟨⟨?_, hi s inbound tail hook due (.inl hcancel)⟩, s, rfl⟩
      rw [(hc.custody.on_of_hook hook).1]
      intro h
      cases h
    · cases hcancel
  · cases hcancel

theorem step_retryBacked_wedged {A : SkbAllocator} {queueLimit : Nat} {a : Action}
    (hc : σ.Configured) (hb : σ.StopCleared) (ht : σ.TailOk) (hi : σ.RetryBacked Wedged)
    (h : σ.step A queueLimit a = some τ) : τ.RetryBacked Wedged := by
  have ha := step_attempts hc h
  refine step_retryBacked hc hb hi (fun hw hs => ha.wedged hw (ha.links hw.1 hs)) ?_ h
  intro hcancel _
  obtain ⟨hw, s, rfl⟩ := ht.cancels hc.control hcancel
  refine ha.wedged hw ?_
  rw [(callbackStep_cases h).outside.links]
  exact hw.1

/-! ## What has been noted down -/

/-- What the removal worker takes along when it gives the lock back. -/
def Post (σ : State) (post : OutboundPost) : Prop :=
  post.failed = false ∧ (post.stopping = true → σ.peer.tcpStopping = true)

/-- What the holder has found out and relies on. -/
def Notes (σ : State) : Holder → Prop
  | .unwindQueue _ => σ.peer.links = .none
  | .outboundFinish _ false _ => σ.peer.links.outboundSocket = none
  | .outboundRearm post | .outboundUnlock post => σ.Post post
  | _ => True

/-- The device stays a TCP device, and what the holder and the removal worker have noted down stays
true. -/
structure Noted (σ : State) : Prop where
  transport : σ.device.transport = .tcp
  running : σ.device.tcpCleanupScheduled = true → σ.device.netifRunning = true
  lock : ∀ h, σ.lock = some h → σ.Notes h
  post : ∀ post, σ.outbound = .post post → σ.Post post

theorem noted_init (tempPeer : Bool) (addressing : Addressing) :
    (State.init tempPeer addressing).Noted :=
  ⟨rfl, fun _ => rfl, (fun _ h => by cases h), (fun _ h => by cases h)⟩

theorem Post.mono {post : OutboundPost} (h : σ.Post post)
    (hstopping : σ.peer.tcpStopping = true → τ.peer.tcpStopping = true) : τ.Post post :=
  ⟨h.1, hstopping ∘ h.2⟩

theorem Notes.keep {h : Holder} (hi : σ.Notes h) (hlinks : τ.peer.links = σ.peer.links)
    (hstopping : σ.peer.tcpStopping = true → τ.peer.tcpStopping = true) : τ.Notes h := by
  unfold Notes at hi ⊢
  split at hi
  · exact hlinks.trans hi
  · rwa [hlinks]
  · exact Post.mono hi hstopping
  · exact Post.mono hi hstopping
  · exact hi

/-- A step outside the lock. -/
theorem Noted.keep (hi : σ.Noted) (hdevice : τ.device = σ.device)
    (hlinks : τ.peer.links = σ.peer.links)
    (hstopping : σ.peer.tcpStopping = true → τ.peer.tcpStopping = true)
    (hlock : τ.lock = σ.lock)
    (hpost : ∀ post, τ.outbound = .post post → σ.outbound = .post post) : τ.Noted where
  transport := by rw [hdevice, hi.transport]
  running := by rw [hdevice]; exact hi.running
  lock := by rw [hlock]; exact fun h hl => (hi.lock h hl).keep hlinks hstopping
  post := fun post h => (hi.post post (hpost post h)).mono hstopping

/-- A step of the holder, or one that takes the lock. -/
theorem Noted.goes (hi : σ.Noted) (hdevice : τ.device = σ.device)
    (hstopping : σ.peer.tcpStopping = true → τ.peer.tcpStopping = true)
    (hlock : ∀ h, τ.lock = some h → τ.Notes h)
    (hpost : ∀ post, τ.outbound = .post post → σ.outbound = .post post ∨ τ.Post post) :
    τ.Noted where
  transport := by rw [hdevice, hi.transport]
  running := by rw [hdevice]; exact hi.running
  lock := hlock
  post := fun post h => (hpost post h).elim (fun h => (hi.post post h).mono hstopping) id

theorem Arming.noted (ha : σ.Arming τ) (hi : σ.Noted) : τ.Noted :=
  hi.keep ha.device ha.keeps.links (fun h => ha.keeps.tcpStopping.trans h) ha.lock
    (by rw [ha.outbound]; exact fun _ => id)

theorem CallbackEffect.noted {s : SockId} (he : σ.CallbackEffect s τ) (hi : σ.Noted) : τ.Noted := by
  cases he with
  | arming arming => exact arming.noted hi
  | stateSection inbound =>
    have hkeep := Peer.stateChangeSection_outside σ.device σ.peer s inbound (σ.socks s).skState
    exact hi.keep rfl hkeep.links (fun h => hkeep.tcpStopping.trans h) rfl fun _ => id
  | cancelRetry => exact hi.keep rfl rfl id rfl fun _ => id
  | queueRemoval inbound =>
    have hkeep := Peer.queueRemoval_outside σ.device σ.peer s inbound
    exact hi.keep rfl hkeep.links (fun h => hkeep.tcpStopping.trans h) rfl fun _ => id

theorem setCaller_post {caller : Caller} {pc : Option DialPc} {post : OutboundPost}
    (h : (σ.setCaller caller pc).outbound = .post post) : σ.outbound = .post post := by
  cases caller with
  | outbound => cases pc <;> cases h
  | retry | admin => exact h

theorem outboundPostStep_post {post post' : OutboundPost}
    (h : (σ.outboundPostStep post).outbound = .post post') : σ.outbound = .post post' := by
  unfold outboundPostStep at h
  repeat' split at h
  all_goals cases h

theorem ThreadStep.noted (ht : σ.ThreadStep τ) (hc : σ.Configured) (hi : σ.Noted) : τ.Noted := by
  cases ht with
  | retryBegin =>
    have hkeep := ((Peer.takeRetryWork_aside σ.device σ.peer).trans
      (Peer.beginRetry_aside σ.device _)).toKeeps
    exact hi.keep rfl hkeep.links (fun h => hkeep.tcpStopping.trans h) rfl fun _ => id
  | dialRefused | dialGiveUp =>
    exact hi.keep (by simp) (by simp) (by simp) (by simp) fun _ => setCaller_post
  | dialLock caller =>
    exact hi.goes (by simp) (by simp) (by rintro _ ⟨⟩; trivial) fun _ h => .inl (setCaller_post h)
  | dialGreet caller s =>
    have hkeep := (Peer.wgTcpQueueCarrierBootstrap_aside σ.device σ.peer s).toKeeps
    exact hi.keep (by simp) (by simpa using hkeep.links) (by simp [hkeep.tcpStopping]) (by simp)
      fun _ => setCaller_post
  | dialAgain caller =>
    have hkeep := (Peer.scheduleRetry_aside σ.device σ.peer).toKeeps
    exact hi.keep (by simp) (by simpa using hkeep.links) (by simp [hkeep.tcpStopping]) (by simp)
      fun _ => setCaller_post
  | outboundTake | outboundCancel => exact hi.keep rfl rfl id rfl (fun _ h => by cases h)
  | outboundLock => exact hi.goes rfl id (by rintro _ ⟨⟩; trivial) (fun _ h => by cases h)
  | outboundPost post =>
    have ha := outboundPostStep_aside σ post
    exact hi.keep ha.device ha.peer.links (fun h => ha.peer.tcpStopping.trans h) ha.lock fun _ =>
      outboundPostStep_post
  | inboundLock | bootstrapLock | promotionLock =>
    exact hi.goes rfl id (by rintro _ ⟨⟩; trivial) fun _ => .inl
  | stopBegin =>
    rw [hc.tempPeer]
    exact hi.keep rfl rfl (fun _ => rfl) rfl fun _ => id
  | stopLock =>
    rw [hc.tempPeer]
    exact hi.goes rfl id (by rintro _ ⟨⟩; trivial) fun _ => .inl
  | _ => exact hi.keep rfl rfl id rfl fun _ => id

theorem notes_plan_next (plan : Plan) : τ.Notes plan.next := by
  cases plan with
  | promote new i o => cases i <;> cases o <;> trivial
  | destroy s => cases s <;> trivial
  | _ => trivial

theorem notes_owner_next {s : SockId} {owner : Owner} (ho : owner.Ok σ)
    (hlinks : τ.peer.links = .none) : τ.Notes (owner.next s false) := by
  cases owner with
  | outbound retryNeeded =>
    show τ.peer.links.outboundSocket = none
    rw [hlinks]
    rfl
  | promoteInbound new old =>
    obtain ⟨rfl, -⟩ := ho
    trivial
  | stopOutbound other =>
    obtain rfl : other = none := ho
    trivial
  | _ => trivial

theorem LockedMove.noted (hm : σ.LockedMove h τ) (hl : σ.lock = some h) (hc : σ.Configured)
    (hi : σ.Noted) : τ.Noted := by
  obtain ⟨hok, hin⟩ := hc.control.holder h hl
  cases hm with
  | pass passes =>
    refine hi.goes rfl id ?_ fun _ => .inl
    rintro _ ⟨⟩
    cases passes <;> trivial
  | setup setsUp =>
    refine hi.goes rfl id ?_ fun _ => .inl
    rintro _ ⟨⟩
    cases setsUp <;> trivial
  | connectFinish caller s first p finish =>
    obtain ⟨-, -, conn, -, rfl⟩ := Peer.connectFinish_some hok.1 finish
    exact hi.goes rfl id (by rintro _ ⟨⟩; trivial) fun _ => .inl
  | unwindFinish =>
    refine hi.goes rfl id ?_ fun _ => .inl
    rintro _ ⟨⟩
    split
    · exact hok
    · trivial
  | unwindQueue =>
    rw [Peer.unwindQueue_eq]
    exact hi.goes rfl id (by rintro _ ⟨⟩; trivial) fun _ => .inl
  | connectReturn =>
    exact hi.goes (by simp) (by simp) (fun _ h => by cases h) fun _ h => .inl (setCaller_post h)
  | outboundStale retryNeeded reclaim stale clean =>
    refine hi.goes rfl id ?_ fun _ => .inl
    rintro _ ⟨⟩
    cases reclaim with
    | true => trivial
    | false => exact clean rfl
  | outboundFinish =>
    exact hi.goes rfl id (by rintro _ ⟨⟩; exact ⟨rfl, id⟩) fun _ => .inl
  | outboundUnlock post =>
    refine hi.goes rfl id (fun _ h => by cases h) ?_
    rintro _ ⟨⟩
    exact .inr (hi.lock _ hl)
  | rearm rearms =>
    have hkeep := (Peer.rearm_outside σ.device σ.peer σ.activeQueue).toKeeps
    refine hi.goes rfl (fun h => hkeep.tcpStopping.trans h) ?_ fun _ => .inl
    rintro _ ⟨⟩
    have hnotes := hi.lock _ hl
    cases rearms with
    | outbound post => exact Post.mono hnotes fun h => hkeep.tcpStopping.trans h
    | inbound | promote => trivial
  | bootstrapTake k next =>
    refine hi.goes rfl id ?_ fun _ => .inl
    rintro _ ⟨⟩
    rcases next with rfl | ⟨s, rfl⟩ <;> trivial
  | clearFlags plan =>
    refine hi.goes rfl (by cases plan <;> exact id) ?_ fun _ => .inl
    rintro _ ⟨⟩
    exact notes_plan_next plan
  | shutdown s owner =>
    refine hi.goes rfl id ?_ fun _ => .inl
    rintro _ ⟨⟩
    exact notes_owner_next hok.2 hok.1
  | installData | installFinish | installFail | handoverNothing | handoverClaim | handoverReset
  | handoverDetach => simp [Inside, Holder.thread, hc.tempPeer] at hin
  | destroyed => exact absurd (hc.tempPeer.symm.trans hok.2) (by simp)
  | inboundUnlock | promoteUnlock | bootstrapUnlock | stopUnlock =>
    exact hi.goes rfl id (fun _ h => by cases h) fun _ => .inl
  | _ => exact hi.goes rfl id (by rintro _ ⟨⟩; trivial) fun _ => .inl

theorem lifecycleStep_noted {l : Lifecycle} (hc : σ.Configured) (hi : σ.Noted)
    (h : σ.lifecycleStep l = some τ) : τ.Noted := by
  cases lifecycleStep_cases hc.control h with
  | deviceDown => exact ⟨hi.transport, (fun h => by cases h), hi.lock, hi.post⟩
  | deviceUp done temp =>
    obtain ⟨-, hpass⟩ := hc.control.stop.stopped temp (by simp [done, StopPc.rank])
    obtain ⟨hidle, -⟩ := hc.control.stop.outbound (by simp [done, StopPc.rank])
    refine ⟨hi.transport, fun _ => rfl, fun k hk => ?_, fun post h => ?_⟩
    · have := hpass k hk
      cases k <;> trivial
    · exact absurd (hidle.symm.trans h) (fun h => by cases h)
  | removePeer => exact hi.keep rfl rfl (fun _ => rfl) rfl fun _ => id
  | install s connectionId stage temp => exact absurd (hc.tempPeer.symm.trans temp) (by simp)
  | handover => exact hi.goes rfl id (by rintro _ ⟨⟩; trivial) fun _ => .inl

theorem step_noted {A : SkbAllocator} {queueLimit : Nat} {a : Action} (hc : σ.Configured)
    (hi : σ.Noted) (h : σ.step A queueLimit a = some τ) : τ.Noted := by
  cases a with
  | kernel e => exact (kernelStep_arming h).noted hi
  | callback s => exact (callbackStep_cases h).effect.noted hi
  | read choice => exact (readStep_arming h).noted hi
  | write choice => exact (writeStep_arming h).noted hi
  | request r => exact (requestStep_arming h).noted hi
  | thread t choice => exact (threadStep_steps hc.control h).noted hc hi
  | locked choice =>
    obtain ⟨k, hk, h⟩ := Option.bind_eq_some_iff.mp h
    exact (lockedStep_cases hc.control hk h).noted hk hc hi
  | lifecycle l => exact lifecycleStep_noted hc hi h

/-! ## Somebody sees to the attempt -/

/-- What sees to an attempt. -/
def Drive (σ : State) : Prop :=
  σ.peer.conn.connecting = true ∨ σ.peer.retry.work = true ∨ σ.peer.outboundRemove.work = true ∨
    σ.outbound.reclaims = true ∨ σ.lock.any Holder.drives = true

def Driven (σ : State) : Prop :=
  σ.peer.live σ.device = true → σ.peer.conn.pending = true → σ.Drive

theorem driven_init (tempPeer : Bool) (addressing : Addressing) :
    (State.init tempPeer addressing).Driven :=
  fun _ h => (by cases h)

/-- A live attempt without an outbound socket has a dialing thread. -/
theorem Drive.of_unowned (hi : σ.ConnOk) (hpending : σ.peer.conn.pending = true)
    (hnone : σ.peer.links.outboundSocket = none) : σ.Drive := by
  refine .inl ((hi.dialed hpending).resolve_right ?_)
  simp [hnone]

/-- Whoever restores the outbound claim sees to the attempt. -/
theorem Drive.of_restores (hc : σ.Control) (hi : σ.ConnOk) (hn : σ.Noted)
    (hpending : σ.peer.conn.pending = true)
    (hl : σ.lock.any (Holder.restores false) = true) : σ.Drive := by
  obtain ⟨k, hk, hrestores⟩ := (Option.any_eq_true _ _).mp hl
  obtain ⟨hok, -⟩ := hc.holder k hk
  have hnotes := hn.lock k hk
  have unowned (h : σ.peer.links = .none) : σ.Drive := .of_unowned hi hpending (by rw [h]; rfl)
  have drives (h : k.drives = true) : σ.Drive := by
    simp [Drive, hk, h]
  cases k with
  | unwind | unwindFinish => exact .inl (by simp [hi.connecting, hk, Holder.dialing])
  | unwindQueue => exact unowned hnotes
  | outboundFinish retryNeeded reclaim failed =>
    cases reclaim with
    | true => exact drives rfl
    | false => exact .of_unowned hi hpending hnotes
  | purge | shutdown | promotePublish => exact unowned hok.1
  | drain | cancelRead | cancelWrite | clearFlags | reset | release | outboundView =>
    exact drives rfl
  | _ => cases hrestores

/-- A claim on the outbound socket of an attempt has its removal under way. -/
theorem Drive.of_claim (hc : σ.Control) (hi : σ.ConnOk) (hn : σ.Noted) (ht : σ.TailOk)
    (hb : σ.RemovalBacked false) (hlive : σ.peer.live σ.device = true)
    (hpending : σ.peer.conn.pending = true)
    (hclaimed : σ.peer.outboundRemove.scheduled = true) : σ.Drive := by
  rcases hb hlive hclaimed with hwork | hstarts | hrestores | ⟨s, tail, hook, due, hremoval⟩
  · exact .inr (.inr (.inl hwork))
  · exact .inr (.inr (.inr (.inl (OutboundPc.reclaims_of_starts hstarts))))
  · exact .of_restores hc hi hn hpending hrestores
  · simp [ht s false tail hook due (.inr ⟨hremoval, rfl⟩)] at hpending

/-- A step that leaves whatever sees to the attempt in place. -/
theorem Drive.keep (hd : σ.Drive) (hconn : τ.peer.conn.connecting = σ.peer.conn.connecting)
    (hretry : σ.peer.retry.work = true → τ.peer.retry.work = true)
    (hremove : σ.peer.outboundRemove.work = true → τ.peer.outboundRemove.work = true)
    (houtbound : σ.outbound.reclaims = true → τ.outbound.reclaims = true)
    (hlock : σ.lock.any Holder.drives = true → τ.lock.any Holder.drives = true) : τ.Drive :=
  hd.imp hconn.trans (.imp hretry (.imp hremove (.imp houtbound hlock)))

theorem Arming.drive (ha : σ.Arming τ) (hi : σ.ConnOk) (hi' : τ.ConnOk) (hd : σ.Drive) :
    τ.Drive := by
  refine hd.keep ?_ ha.queues.retry.2 ha.queues.outbound.2 ?_ ?_
  · rw [hi'.connecting, hi.connecting, ha.lock]
  · rw [ha.outbound]
    exact id
  · rw [ha.lock]
    exact id

theorem reclaims_setCaller {σ' : State} {caller : Caller} {pc : DialPc}
    (hpc : σ.caller caller = some pc) (pc' : Option DialPc) (h : σ'.outbound = σ.outbound)
    (hr : σ.outbound.reclaims = true) : (σ'.setCaller caller pc').outbound.reclaims = true := by
  cases caller with
  | outbound =>
    rw [caller_outbound_eq_some.mp hpc] at hr
    cases hr
  | retry | admin => exact h ▸ hr

/-- What the invariants say of a live attempt in a state. -/
structure Attempted (σ : State) : Prop where
  control : σ.Control
  conn : σ.ConnOk
  noted : σ.Noted
  tail : σ.TailOk
  removal : σ.RemovalBacked false
  live : σ.peer.live σ.device = true
  pending : σ.peer.conn.pending = true

theorem Attempted.claim (ha : σ.Attempted) (h : σ.peer.outboundRemove.scheduled = true) : σ.Drive :=
  .of_claim ha.control ha.conn ha.noted ha.tail ha.removal ha.live ha.pending h

theorem Attempted.unestablished (ha : σ.Attempted) : σ.peer.conn.established = false := by
  by_contra h
  have := (ha.conn.established (by simpa using h)).1
  simp [ha.pending] at this

/-- A retry of an attempt that is scheduled is queued, or its work has been taken by the removal
worker. -/
theorem Attempted.retry (ha : σ.Attempted) (hr : σ.RetryBacked Wedged)
    (hlock : ∀ h, σ.lock = some h → h.viewsOutbound = false)
    (h : σ.peer.retry.scheduled = true) : σ.Drive := by
  rcases hr ha.live h with hwork | hstarts | hviews | hwedged
  · exact .inr (.inl hwork)
  · exact .inr (.inr (.inr (.inl (OutboundPc.reclaims_of_starts hstarts))))
  · obtain ⟨k, hk, hviews⟩ := (Option.any_eq_true _ _).mp hviews
    simp [hlock k hk] at hviews
  · exact absurd (hwedged.2.symm.trans ha.pending) (by simp)

theorem outboundPostStep_claims {post : OutboundPost} (hpost : σ.Post post) (hn : σ.Noted)
    (hlive : σ.peer.live σ.device = true) (hreclaim : post.reclaim = true)
    (hendpoint : σ.peer.addressing.peerEndpointSet = true)
    (hconnecting : σ.peer.conn.connecting = false) :
    (σ.outboundPostStep post).peer.outboundRemove.scheduled = true := by
  obtain ⟨hfailed, hstopping⟩ := hpost
  have hgo : post.stopping = false := by
    cases hs : post.stopping with
    | false => rfl
    | true => simp [Peer.live, hstopping hs] at hlive
  have htcp := hn.transport
  have hrunning := hn.running
  simp only [Peer.live, Bool.and_eq_true, Bool.not_eq_true'] at hlive
  simp only [outboundPostStep, Peer.wgTcpPeerRequestReconnectAfter, Peer.live, hfailed, hgo,
    hreclaim, hlive, htcp, hrunning hlive.2, hendpoint, hconnecting]
  simp
  split <;> simp_all [Removal.claim]

theorem ThreadStep.drive (ht : σ.ThreadStep τ) (hc : σ.Configured) (ha : τ.Attempted)
    (hi : σ.ConnOk) (hn : σ.Noted) (hd : σ.Drive) : τ.Drive := by
  have free {Q : Prop} (hfree : σ.lock = none) (hl : σ.lock.any Holder.drives = true) : Q := by
    simp [hfree] at hl
  cases ht with
  | retryBegin =>
    have hkeep := (Peer.takeRetryWork_aside σ.device σ.peer).trans
      (Peer.beginRetry_aside σ.device _)
    exact ha.claim (Peer.beginRetry_claims (hkeep.toKeeps.live ha.live) hn.transport
      (hkeep.conn ▸ ha.unestablished) (hkeep.conn ▸ ha.pending))
  | dialRefused caller pc transport => exact absurd hn.transport transport
  | dialLock caller pc hfree =>
    exact hd.keep (by simp) (by simp) (by simp) (reclaims_setCaller pc _ rfl) (free hfree)
  | dialGreet caller s pc =>
    have hq := (Peer.wgTcpQueueCarrierBootstrap_arms σ.peer s).toQueues
    have hconn := (Peer.wgTcpQueueCarrierBootstrap_aside σ.device σ.peer s).conn
    exact hd.keep (by simp [hconn]) (by simpa using hq.retry.2) (by simpa using hq.outbound.2)
      (reclaims_setCaller pc _ rfl) (by simp)
  | dialGiveUp pc => exact hd.keep rfl id id id id
  | dialAgain caller pc =>
    have hq := (Peer.scheduleRetry_arms σ.peer).toQueues
    have hconn := (Peer.scheduleRetry_aside σ.device σ.peer).conn
    exact hd.keep (by simp [hconn]) (by simpa using hq.retry.2) (by simpa using hq.outbound.2)
      (reclaims_setCaller pc _ rfl) (by simp)
  | outboundTake | outboundCancel => exact .inr (.inr (.inr (.inl rfl)))
  | outboundLock => exact .inr (.inr (.inr (.inr rfl)))
  | outboundPost post pc =>
    have haside := outboundPostStep_aside σ post
    have hlive : σ.peer.live σ.device = true := haside.peer.toKeeps.live (haside.device ▸ ha.live)
    have hconn := congrArg Connection.connecting haside.peer.conn
    by_cases hreclaim : post.reclaim = true
    · -- The claim is made again, unless a thread dials or a claim stands.
      by_cases hconnecting : (σ.outboundPostStep post).peer.conn.connecting = true
      · exact .inl hconnecting
      · have hpending := hi.endpoint (haside.peer.conn ▸ ha.pending)
        refine ha.claim (outboundPostStep_claims (hn.post post pc) hn hlive hreclaim hpending ?_)
        rw [← hconn]
        simpa using hconnecting
    · have hq := outboundPostStep_queues σ post
      refine hd.keep hconn hq.retry.2 hq.outbound.2 ?_ ?_
      · rw [pc]
        exact fun h => absurd h hreclaim
      · rw [haside.lock]
        exact id
  | inboundDead idle work temp => exact absurd (hc.tempPeer.symm.trans temp) (by simp)
  | inboundLock pc hfree | bootstrapLock pc hfree | promotionLock s connectionId pc hfree =>
    exact hd.keep rfl id id id (free hfree)
  | stopBegin =>
    have hlive := ha.live
    rw [hc.tempPeer] at hlive
    simp [Peer.live, Peer.stopClaim] at hlive
  | stopRetry pc | stopOutbound pc | stopInbound pc | stopBootstrap pc | stopPromotion pc
  | stopLock pc | stopFinish pc =>
    have := not_live_of_stop hc.control (by simp [pc, StopPc.rank])
    exact absurd (this.symm.trans ha.live) (by simp)
  | inboundTake | bootstrapTake | promotionStart | promotionTake | promotionSkip
  | promotionClaim => exact hd.keep rfl id id id id

/-- A holder that sees to the attempt goes on. -/
theorem Drive.goes (hd : σ.Drive) (hl : σ.lock = some h)
    (hconn : τ.peer.conn.connecting = σ.peer.conn.connecting)
    (hretry : σ.peer.retry.work = true → τ.peer.retry.work = true)
    (hremove : σ.peer.outboundRemove.work = true → τ.peer.outboundRemove.work = true)
    (houtbound : σ.outbound.reclaims = true → τ.outbound.reclaims = true)
    (hlock : h.drives = true → τ.Drive) : τ.Drive := by
  rcases hd with hd | hd | hd | hd | hd
  · exact .inl (hconn.trans hd)
  · exact .inr (.inl (hretry hd))
  · exact .inr (.inr (.inl (hremove hd)))
  · exact .inr (.inr (.inr (.inl (houtbound hd))))
  · rw [hl] at hd
    exact hlock hd

theorem LockedMove.drive (hm : σ.LockedMove h τ) (hl : σ.lock = some h) (hc : σ.Configured)
    (ha : τ.Attempted) (hd : σ.Drive) (hr : τ.RetryBacked Wedged) : τ.Drive := by
  obtain ⟨hok, hin⟩ := hc.control.holder h hl
  have drives (h : τ.lock.any Holder.drives = true) : τ.Drive := .inr (.inr (.inr (.inr h)))
  cases hm with
  | pass passes =>
    refine hd.goes hl rfl id id id ?_
    cases passes with
    | drained | drain => exact fun _ => drives rfl
    | _ =>
      intro h
      cases h
  | dial => exact .inl rfl
  | setup setsUp => exact hd.goes hl rfl id id id (by cases setsUp <;> intro h <;> cases h)
  | connectFinish caller s first p finish =>
    -- The attempt goes on: a reconnect is claimed, or a retry is scheduled.
    obtain ⟨-, -, conn, -, rfl⟩ := Peer.connectFinish_some hok.1 finish
    have hpending : conn.pending = true := ha.pending
    by_cases hreconnect : (σ.peer.tcpReconnectRequested && !σ.peer.outboundRemove.scheduled) = true
    · exact .inr (.inr (.inl (by simp [hreconnect, Removal.claim])))
    · refine ha.retry hr (by rintro _ ⟨⟩; rfl) ?_
      cases hs : σ.peer.retry.scheduled <;> simp [hreconnect, hpending, hs, WorkItem.queued]
  | unwindClaim => exact drives rfl
  | unwindFinish => exact absurd ha.pending (by simp [Peer.unwindFinish])
  | unwindQueue =>
    rw [Peer.unwindQueue_eq]
    exact hd.goes hl rfl id (fun h => by simp [h]) id (fun h => by cases h)
  | connectReturn caller failed greet pc =>
    exact hd.goes hl (by simp) (by simp) (by simp) (reclaims_setCaller hin _ rfl)
      (fun h => by cases h)
  | outboundClean => exact drives rfl
  | outboundStale retryNeeded reclaim stale clean =>
    cases reclaim with
    | true => exact drives rfl
    | false => exact .of_unowned ha.conn ha.pending (clean rfl)
  | outboundFinish retryNeeded reclaim =>
    exact hd.goes hl rfl id id id fun h => drives h
  | outboundUnlock post =>
    refine hd.goes hl rfl id id ?_ fun h => .inr (.inr (.inr (.inl h)))
    rw [show σ.outbound = .inside from hin]
    intro h
    cases h
  | rearm rearms =>
    rw [Peer.rearm_eq] at drives ⊢
    refine hd.goes hl rfl id id id ?_
    cases rearms with
    | outbound post => exact fun h => drives h
    | inbound | promote =>
      intro h
      cases h
  | promotePublish => exact absurd ha.pending (fun h => by cases h)
  | clearFlags plan =>
    cases plan with
    | detach => exact drives rfl
    | promote new i o =>
      obtain ⟨-, s, inbound, hlinks, rfl, rfl⟩ := hok.1
      refine drives ?_
      rw [hlinks]
      cases inbound <;> rfl
    | stop =>
      have hstop : σ.stop = .inside := hin
      have := not_live_of_stop hc.control (by simp [hstop, StopPc.rank])
      exact absurd (this.symm.trans ha.live) (by simp)
    | destroy => exact absurd (hc.tempPeer.symm.trans hok.1.2) (by simp)
    | handover => simp [Inside, Holder.thread, Plan.thread, hc.tempPeer] at hin
  | cancelRead | cancelWrite | reset | stopReclaim | stopPurge | promoteClaim => exact drives rfl
  | release => exact absurd ha.pending (fun h => by cases h)
  | installData | installFinish | installFail | handoverNothing | handoverClaim | handoverReset
  | handoverDetach => simp [Inside, Holder.thread, hc.tempPeer] at hin
  | destroyed => exact absurd (hc.tempPeer.symm.trans hok.2) (by simp)
  | _ => exact hd.goes hl rfl id id id (fun h => by cases h)

theorem CallbackEffect.drive {s : SockId} (he : σ.CallbackEffect s τ) (hi : σ.ConnOk)
    (hi' : τ.ConnOk) (ht : σ.TailOk) (hpending : σ.peer.conn.pending = true) (hd : σ.Drive) :
    τ.Drive := by
  cases he with
  | arming arming => exact arming.drive hi hi' hd
  | stateSection inbound =>
    have hretry := (stateChangeSection_retry σ.peer s inbound (σ.socks s).skState).1
    have hremove := (stateChangeSection_removal σ.peer s inbound (σ.socks s).skState false).1
    refine hd.keep ?_ (fun h => hretry.trans h) (fun h => hremove.trans h) id id
    rw [hi'.connecting, hi.connecting]
    rfl
  | cancelRetry inbound hook tail due cancel =>
    simp [ht s inbound tail hook due (.inl cancel)] at hpending
  | queueRemoval inbound =>
    have hq := (Peer.queueRemoval_arms σ.device σ.peer s inbound).toQueues
    refine hd.keep ?_ hq.retry.2 hq.outbound.2 id id
    rw [hi'.connecting, hi.connecting]
    rfl

theorem CallbackEffect.live {s : SockId} (he : σ.CallbackEffect s τ)
    (hlive : τ.peer.live τ.device = true) : σ.peer.live σ.device = true := by
  cases he with
  | arming arming => exact arming.keeps.live (arming.device ▸ hlive)
  | stateSection => exact (Peer.stateChangeSection_outside _ _ _ _ _).toKeeps.live hlive
  | cancelRetry => exact hlive
  | queueRemoval => exact (Peer.queueRemoval_outside _ _ _ _).toKeeps.live hlive

theorem ThreadMove.live (hm : σ.ThreadMove τ) (hlive : τ.peer.live τ.device = true) :
    σ.peer.live σ.device = true := by
  cases hm with
  | aside aside => exact aside.peer.toKeeps.live (aside.device ▸ hlive)
  | dead => simp [Peer.live] at hlive
  | acquire k entry free lock device peer => rwa [peer, device] at hlive
  | promotionClaim => exact hlive
  | stopBegin =>
    dsimp only [setPeer_peer] at hlive
    split at hlive <;> simp [Peer.live, Peer.stopClaim, Peer.destroyClaim] at hlive
  | stopFinish => exact hlive

/-! ## Every step -/

structure Coherent (σ : State) : Prop where
  configured : σ.Configured
  backed : σ.Backed
  conn : σ.ConnOk
  tail : σ.TailOk
  noted : σ.Noted
  retry : σ.RetryBacked Wedged
  driven : σ.Driven

theorem coherent_init (addressing : Addressing) : (State.init false addressing).Coherent where
  configured := configured_init addressing
  backed := backed_init false addressing
  conn := connOk_init false addressing
  tail := (fun _ _ _ h => by cases h)
  noted := noted_init false addressing
  retry := retryBacked_init false addressing
  driven := driven_init false addressing

variable {A : SkbAllocator} {queueLimit : Nat} {addressing : Addressing} {as : List Action}
  {a : Action}

theorem step_driven (hi : σ.Coherent) (ha : τ.Attempted) (hr : τ.RetryBacked Wedged)
    (h : σ.step A queueLimit a = some τ) : τ.Drive := by
  have hc := hi.configured
  rcases (step_attempts hc h).pending ha.pending with hpending | ⟨-, hconnecting⟩
  · cases a with
    | kernel e =>
      have harm := kernelStep_arming h
      have hlive := harm.keeps.live (harm.device ▸ ha.live)
      exact harm.drive hi.conn ha.conn (hi.driven hlive hpending)
    | callback s =>
      have heffect := (callbackStep_cases h).effect
      exact heffect.drive hi.conn ha.conn hi.tail hpending
        (hi.driven (heffect.live ha.live) hpending)
    | read choice =>
      have harm := readStep_arming h
      have hlive := harm.keeps.live (harm.device ▸ ha.live)
      exact harm.drive hi.conn ha.conn (hi.driven hlive hpending)
    | write choice =>
      have harm := writeStep_arming h
      have hlive := harm.keeps.live (harm.device ▸ ha.live)
      exact harm.drive hi.conn ha.conn (hi.driven hlive hpending)
    | request r =>
      have harm := requestStep_arming h
      have hlive := harm.keeps.live (harm.device ▸ ha.live)
      exact harm.drive hi.conn ha.conn (hi.driven hlive hpending)
    | thread t choice =>
      have hlive := (threadStep_cases hc.control h).live ha.live
      exact (threadStep_steps hc.control h).drive hc ha hi.conn hi.noted (hi.driven hlive hpending)
    | locked choice =>
      obtain ⟨k, hk, h⟩ := Option.bind_eq_some_iff.mp h
      have hm := lockedStep_cases hc.control hk h
      exact hm.drive hk hc ha (hi.driven (hm.live ha.live) hpending) hr
    | lifecycle l =>
      cases lifecycleStep_cases hc.control h with
      | deviceDown => exact absurd ha.live (by simp [Peer.live])
      | deviceUp done temp links =>
        refine .of_unowned ha.conn ha.pending ?_
        have : σ.peer.wgOpen.links = σ.peer.links := by
          unfold Peer.wgOpen
          split <;> rfl
        rw [setPeer_peer, this, links]
        rfl
      | removePeer => exact absurd ha.live (by simp [Peer.live, Peer.peerMakeDead])
      | install s connectionId stage temp => exact absurd (hc.tempPeer.symm.trans temp) (by simp)
      | handover s free =>
        exact (hi.driven ha.live hpending).keep rfl id id id (by simp [free])
  · exact .inl hconnecting

theorem Coherent.step (hi : σ.Coherent) (h : σ.step A queueLimit a = some τ) : τ.Coherent := by
  have hc := hi.configured
  have hconn := step_connOk hc hi.conn h
  have htail := hi.tail.step hc.control (step_attempts hc h) (step_tails hc h)
  have hnoted := step_noted hc hi.noted h
  have hbacked := step_backed hc hi.backed h
  have hretry := step_retryBacked_wedged hc hi.backed.cleared hi.tail hi.retry h
  refine ⟨hc.step h, hbacked, hconn, htail, hnoted, hretry, fun hlive hpending => ?_⟩
  exact step_driven hi ⟨(hc.step h).control, hconn, hnoted, htail, hbacked.removal false, hlive,
    hpending⟩ hretry h

theorem Reaches.coherent (h : Reaches A queueLimit false addressing as σ) : σ.Coherent :=
  Transition.run_invariant (I := Coherent) (fun _ _ _ hi h => hi.step h)
    (coherent_init addressing) h

/-! ## Result -/

/-- Whenever `tcp_socket_lock` of a live peer is free, its sockets and connection flags agree, and
an attempt that is pending has the retry or the removal of its socket under way. -/
theorem carrier_coherent (h : Reaches A queueLimit false addressing as σ) (hfree : σ.lock = none)
    (hlive : σ.peer.live σ.device = true) :
    σ.peer.conn.connecting = false ∧
    (σ.peer.links.peerSocket = none ∨ σ.peer.links.peerSocket = σ.peer.links.inboundSocket ∨
      σ.peer.links.peerSocket = σ.peer.links.outboundSocket) ∧
    (σ.peer.links.inboundSocket = none ∨ σ.peer.links.outboundSocket = none) ∧
    (σ.peer.conn.established = true → σ.peer.links.peerSocket ≠ none ∧
      (σ.peer.conn.inbound = true ∨ σ.peer.conn.outbound = true)) ∧
    (σ.peer.conn.pending = true → σ.peer.links.peerSocket = σ.peer.links.outboundSocket ∧
      σ.peer.links.outboundSocket ≠ none ∧
      (σ.peer.retry.work = true ∨ σ.retry ≠ none ∨ σ.peer.outboundRemove.work = true ∨
        σ.outbound ≠ .idle)) := by
  have hi := h.coherent
  have hconnecting : σ.peer.conn.connecting = false := by simp [hi.conn.connecting, hfree]
  refine ⟨hconnecting, ?_, ?_, fun hest => ?_, fun hpending => ?_⟩
  · rcases h.control.custody.links with hl | ⟨s, inbound, hl, -⟩
    · exact .inl (by rw [hl]; rfl)
    · rw [hl]
      cases inbound
      · exact .inr (.inr rfl)
      · exact .inr (.inl rfl)
  · rcases h.control.custody.links with hl | ⟨s, inbound, hl, -⟩
    · exact .inl (by rw [hl]; rfl)
    · rw [hl]
      cases inbound
      · exact .inl rfl
      · exact .inr rfl
  · obtain ⟨-, s, hs, hconnected⟩ := hi.conn.established hest
    refine ⟨by simp [hs], ?_⟩
    rcases hconnected with hin | hout | hdoomed
    · exact .inl hin
    · exact .inr hout
    · simp [hdoomed.1] at hconnecting
  · have hsome := (hi.conn.dialed hpending).resolve_left (by simp [hconnecting])
    obtain ⟨s, hs⟩ := Option.isSome_iff_exists.mp hsome
    have hlinks := h.control.custody.on_socketOf (show σ.peer.socketOf false = some s from hs)
    refine ⟨by rw [hlinks]; rfl, by simp [hs], ?_⟩
    rcases hi.driven hlive hpending with hdial | hretry | hremove | hreclaims | hholder
    · simp [hconnecting] at hdial
    · exact .inl hretry
    · exact .inr (.inr (.inl hremove))
    · refine .inr (.inr (.inr fun hidle => ?_))
      simp [hidle, OutboundPc.reclaims] at hreclaims
    · simp [hfree] at hholder

theorem carrier_coherent_dialing : ∃ σ, Reaches exactAllocator 4 false .unset dialRun σ ∧
    σ.peer.conn.pending = true ∧ σ.peer.links.outboundSocket ≠ none ∧
    (σ.peer.retry.work = true ∨ σ.retry ≠ none ∨ σ.peer.outboundRemove.work = true ∨
      σ.outbound ≠ .idle) := by
  have hrun : ((Transition.run (step exactAllocator 4) (.init false .unset) dialRun).any fun σ =>
      decide (σ.lock = none ∧ σ.peer.live σ.device = true ∧
        σ.peer.conn.pending = true)) = true := by
    decide +kernel
  obtain ⟨σ, hσ, hcheck⟩ := Transition.exists_run_of_any hrun
  obtain ⟨hfree, hlive, hpending⟩ := of_decide_eq_true hcheck
  exact ⟨σ, hσ, hpending, ((carrier_coherent hσ hfree hlive).2.2.2.2 hpending).2⟩

end State

end WgTcp
