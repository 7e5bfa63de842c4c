import WgTcp.Peer.Retirement
import WgTcp.Stream.Handoff

/-!
# A close is noticed

A connection that is over changes its state before `wg_tcp_state_change` is
called, and the callback claims the socket. Where the callback leaves it to a
connect in progress, the connect looks at the state again before it ends. So a
socket that has the peer's callbacks and no state callback to come is retired
as soon as it is closed, unless it was closed before it got the callbacks: a
dialed socket has nothing to lose then, but a promoted carrier may have.

`wg_tcp_read_worker` relies on that: a read that ends the stream discards the
parser's buffer and leaves the socket to the callback. `close_noticed` is about
dialed sockets, `terminal_receive_retires` about a reader's last result.
-/

namespace WgTcp

/-! ## Closed sockets -/

/-- The state section of the callback is still to come. -/
def Callback.early : Callback → Bool
  | .stateChange | .stateEntered => true
  | _ => false

/-- A closed socket with the peer's callbacks, whose state callbacks are through. -/
structure Sock.Shut (sk : Sock) (inbound : Bool) : Prop where
  hook : sk.userData = some inbound
  closed : sk.skState.closed = true
  heard : sk.callback.any Callback.early = false

/-- The connect or its unwinding looks at the socket again. -/
def Holder.arriving : Holder → Bool
  | .connectSetup _ _ | .connectStart _ _ | .connectFinish _ _ | .unwind _ _ => true
  | _ => false

theorem Holder.dialing_of_arriving {h : Holder} (ha : h.arriving = true) : h.dialing = true := by
  cases h <;> first | rfl | cases ha

/-- The peer's socket does not have its callbacks yet, or no longer. -/
def Holder.unhooks : Holder → Bool
  | .connectSetup _ _ | .unwind _ _ | .promoteSetup _ | .promoteForget _ | .reset _ _
  | .release _ _ => true
  | .cancelRead plan | .cancelWrite plan | .clearFlags plan => plan.dialing
  | _ => false

namespace State

variable {σ τ : State} {h k : Holder} {s : SockId} {inbound : Bool}

/-! ## What is known of the peer's socket -/

theorem Sound.claimed_outbound (hi : σ.Sound) (hlinks : σ.peer.links = .on s false)
    (hs : σ.peer.outboundRemove.scheduled = true) :
    σ.peer.Retired s ∨ σ.lock.any Holder.arriving = true := by
  have hcoherent := hi.coherent (hi.outboundOf hlinks)
  refine (hcoherent.exact_outbound hlinks hs).imp (fun h => .inr (.inr (.inr (.inl h)))) ?_
  intro hsettles
  obtain ⟨k, hk, hsettles⟩ := (Option.any_eq_true _ _).mp hsettles
  rw [hk]
  cases k <;> first | rfl | cases hsettles

theorem Sound.claimed_inbound (hi : σ.Sound) (hlinks : σ.peer.links = .on s true)
    (hs : σ.peer.inboundRemove.scheduled = true) : σ.peer.Retired s := by
  have hsocket : σ.peer.links.inboundSocket = some s := by rw [hlinks]; rfl
  cases htemp : σ.peer.tempPeer with
  | true =>
    rcases (hi.bare htemp).inbound hs with hdead | hstopping
    · exact .inr (.inl hdead)
    · exact .inr (.inr (.inl hstopping))
  | false =>
    rcases (hi.coherent htemp).configured.exact.inbound hs with hexact | ⟨hnone, -⟩
    · exact .inr (.inr (.inr (.inr ⟨hs, hexact.trans hsocket, hsocket⟩)))
    · exact absurd (hsocket.symm.trans hnone) (fun h => by cases h)

/-- A thread that has closed the stream to tear a dialed socket down has retired it. -/
theorem Sound.closed_outbound (hi : σ.Sound) (hlinks : σ.peer.links = .on s false)
    (hclosed : σ.peer.Closed) (hl : σ.lock = some k) (hk : k.clearsInbound = false) :
    σ.peer.Retired s ∨ σ.lock.any Holder.arriving = true := by
  rcases hclosed with hdead | hstopping | hout | hin
  · exact .inl (.inr (.inl hdead))
  · exact .inl (.inr (.inr (.inl hstopping)))
  · exact hi.claimed_outbound hlinks hout
  · -- Only a stop claims an inbound socket that is not there.
    have hexact := (hi.coherent (hi.outboundOf hlinks)).configured.exact
    refine .inl (.inr (.inr (.inl ?_)))
    rcases hexact.inbound hin with hsocket | ⟨-, hstop | hclears⟩
    · exact hexact.named hin (hsocket.trans (by rw [hlinks]; rfl))
    · exact hstop.1
    · simp [hl, hk] at hclears

theorem Sound.connecting (hi : σ.Sound) (hlinks : σ.peer.links = .on s false)
    (hconnecting : σ.peer.conn.connecting = true) :
    σ.peer.Retired s ∨ σ.lock.any Holder.arriving = true := by
  rw [(hi.coherent (hi.outboundOf hlinks)).conn.connecting] at hconnecting
  obtain ⟨k, hk, hdialing⟩ := (Option.any_eq_true _ _).mp hconnecting
  have hok := (hi.control.holder k hk).1
  have unlinked (h : σ.peer.links = .none) : False := by
    rw [hlinks] at h
    cases h
  cases k with
  | connectCreate | unwindFinish => exact (unlinked hok).elim
  | connectPublish => exact (unlinked hok.1).elim
  | connectSetup | connectStart | connectFinish | unwind => exact .inr (by rw [hk]; rfl)
  | drain _ plan cancel => exact hi.closed_outbound hlinks hok.2.2 hk rfl
  | cancelRead plan => exact hi.closed_outbound hlinks hok.2 hk rfl
  | cancelWrite plan => exact hi.closed_outbound hlinks hok.2.1 hk rfl
  | clearFlags plan => exact hi.closed_outbound hlinks hok.2.closed hk rfl
  | reset t owner => exact hi.closed_outbound hlinks hok.2.2.2.closed hk rfl
  | release t owner =>
    refine hi.closed_outbound hlinks (hok.2.2.2 ?_).closed hk rfl
    rintro rfl
    cases hdialing
  | purge | shutdown => exact (unlinked hok.1).elim
  | _ => cases hdialing

/-- A connect is not about a socket of the other direction. -/
theorem not_arriving_of_inbound (hc : σ.Control) (hlinks : σ.peer.links = .on s true) :
    σ.lock.any Holder.arriving ≠ true := by
  intro harriving
  obtain ⟨k, hk, harriving⟩ := (Option.any_eq_true _ _).mp harriving
  have hok := (hc.holder k hk).1
  cases k with
  | connectSetup | connectStart | connectFinish =>
    have := hlinks.symm.trans hok.1
    cases this
  | unwind caller t =>
    cases t with
    | none =>
      have := hlinks.symm.trans hok
      cases this
    | some t =>
      rcases hok with hok | hok
      · have := hlinks.symm.trans hok
        cases this
      · have := hlinks.symm.trans hok
        cases this
  | _ => cases harriving

/-! ## The invariant -/

/-- A closed socket whose callbacks are through is retired, unless a connect still has to look. -/
def Noticed (σ : State) (inbound : Bool) : Prop :=
  ∀ s, (σ.socks s).Shut inbound → σ.peer.Retired s ∨ σ.lock.any Holder.arriving = true

theorem noticed_init (tempPeer : Bool) (addressing : Addressing) :
    (State.init tempPeer addressing).Noticed inbound := by
  rintro s ⟨hook, -, -⟩
  cases hook

theorem owned_of_hook (hc : σ.Custody) (hook : (σ.socks s).userData = some inbound) :
    (σ.socks s).stage = .owned :=
  owned_of_active hc (by rw [(hc.on_of_hook hook).1]; rfl)

/-- A step in which no socket is shut that was not before. -/
theorem Noticed.keep (hi : σ.Noticed inbound) (hc : σ.Custody)
    (hretired : ∀ s, (σ.socks s).stage = .owned → σ.peer.Retired s → τ.peer.Retired s)
    (hsocks : ∀ s, (τ.socks s).Shut inbound → (σ.socks s).Shut inbound)
    (hlock : σ.lock.any Holder.arriving = true → τ.lock.any Holder.arriving = true) :
    τ.Noticed inbound := by
  intro s hs
  have hshut := hsocks s hs
  exact (hi s hshut).imp (hretired s (owned_of_hook hc hshut.hook)) hlock

theorem shut_update {socks : SockId → Sock} {sk : Sock} (t : SockId)
    (h : sk.Shut inbound → (socks s).Shut inbound)
    (ht : (Function.update socks s sk t).Shut inbound) : (socks t).Shut inbound := by
  by_cases hts : t = s
  · subst hts
    exact h (by simpa using ht)
  · simpa [hts] using ht

theorem kernel_shut {sk sk' : Sock} {e : KernelEvent} (h : sk.kernel e = some sk')
    (hs : sk'.Shut inbound) : sk.Shut inbound := by
  obtain ⟨hook, hclosed, hheard⟩ := hs
  cases e with
  | accept t connectionId =>
    obtain ⟨-, ⟨⟩⟩ := Option.ite_none_right_eq_some.mp h
    cases hclosed
  | arrive | room =>
    obtain ⟨⟨-, hnone, -⟩, ⟨⟩⟩ := Option.ite_none_right_eq_some.mp h
    exact ⟨hook, hclosed, by rw [hnone]; rfl⟩
  | transition t st =>
    obtain ⟨-, ⟨⟩⟩ := Option.ite_none_right_eq_some.mp h
    cases hheard
  | foreignRead t n =>
    simp only [Sock.kernel] at h
    split at h
    · cases h
      exact ⟨hook, hclosed, hheard⟩
    · cases h

/-- The state section of a closed socket retires it, or leaves it to the connect. -/
theorem stateSection_noticed (hi : σ.Sound) (hook : (σ.socks s).userData = some inbound)
    (hclosed : (σ.socks s).skState.closed = true) :
    (σ.peer.stateChangeSection s inbound (σ.socks s).skState).1.Retired s ∨
      σ.lock.any Holder.arriving = true := by
  obtain ⟨hlinks, -⟩ := hi.control.custody.on_of_hook hook
  have hkeep := (Peer.stateChangeSection_outside σ.device σ.peer s inbound
    (σ.socks s).skState).toKeeps
  cases htemp : σ.peer.tempPeer with
  | true =>
    have hnot : (σ.socks s).skState ≠ .established := by
      intro hst
      rw [hst] at hclosed
      cases hclosed
    refine .inl (.inr (.inl ?_))
    simp [Peer.stateChangeSection, hnot, hclosed, htemp]
  | false =>
    have hcases := Peer.stateChangeSection_cases (σ.socks s).skState htemp hlinks
    generalize (σ.socks s).skState = st at hclosed hcases hkeep ⊢
    generalize Peer.stateChangeSection σ.peer s inbound st = change at hcases hkeep ⊢
    obtain ⟨q, tail⟩ := change
    cases hcases with
    | ignored notClosed => simp [hclosed] at notClosed
    | established => cases hclosed
    | closedInbound =>
      refine .inl ?_
      by_cases hs : σ.peer.inboundRemove.scheduled = true
      · exact hkeep.retired (hi.claimed_inbound hlinks hs)
      · have hsocket : σ.peer.links.inboundSocket = some s := by rw [hlinks]; rfl
        exact .inr (.inr (.inr (.inr
          ⟨by simp [hs, Removal.mark], by simp [hs, Removal.mark], hsocket⟩)))
    | closedDialing closed connecting =>
      exact (hi.connecting hlinks connecting).imp_left hkeep.retired
    | closedOutbound closed connecting =>
      by_cases hs : σ.peer.outboundRemove.scheduled = true
      · exact (hi.claimed_outbound hlinks hs).imp_left hkeep.retired
      · have hsocket : σ.peer.links.outboundSocket = some s := by rw [hlinks]; rfl
        exact .inl (.inr (.inr (.inr (.inl
          ⟨by simp [hs, Removal.mark], by simp [hs, Removal.mark], hsocket⟩))))

/-- The first check of the callback lets it pass only where the socket is claimed already. -/
theorem stateSkip_noticed (hi : σ.Sound) (hook : (σ.socks s).userData = some inbound)
    (hskip : σ.peer.stateChangeSkipped inbound = true) :
    σ.peer.Retired s ∨ σ.lock.any Holder.arriving = true := by
  obtain ⟨hlinks, -⟩ := hi.control.custody.on_of_hook hook
  simp only [Peer.stateChangeSkipped, Bool.or_eq_true, Bool.and_eq_true, Bool.not_eq_true'] at hskip
  rcases hskip with (hdead | ⟨rfl, hs⟩) | ⟨rfl, hs⟩
  · exact .inl (.inr (.inl hdead))
  · exact hi.claimed_outbound hlinks hs
  · exact .inl (hi.claimed_inbound hlinks hs)

theorem callbackStep_noticed {t : SockId} (hs : σ.Sound) (hi : σ.Noticed inbound)
    (h : σ.callbackStep t = some τ) : τ.Noticed inbound := by
  have hm := callbackStep_cases h
  have hkeep := hm.outside.toKeeps
  have hlock := hm.frame.1
  -- A step that leaves the state section behind it, or is not about a state change.
  have keep (hheard : (σ.socks t).callback.any Callback.early = false)
      (hsocks : ∃ sk, τ.socks = Function.update σ.socks t sk ∧ sk.userData = (σ.socks t).userData ∧
        sk.skState = (σ.socks t).skState) : τ.Noticed inbound := by
    obtain ⟨sk, hsocks, hhook, hstate⟩ := hsocks
    refine hi.keep hs.control.custody (fun _ _ => hkeep.retired) (fun u hu => ?_) ?_
    · rw [hsocks] at hu
      refine shut_update u (fun hsk => ?_) hu
      exact ⟨hhook ▸ hsk.hook, hstate ▸ hsk.closed, hheard⟩
    · rw [hlock]
      exact id
  -- A step of the state callback itself.
  have state {sk : Sock} {b : Bool} (hook : (σ.socks t).userData = some b)
      (hsocks : τ.socks = Function.update σ.socks t sk) (hhook : sk.userData = (σ.socks t).userData)
      (hnoticed : sk.Shut inbound → b = inbound →
        τ.peer.Retired t ∨ σ.lock.any Holder.arriving = true) : τ.Noticed inbound := by
    intro u hu
    rw [hsocks] at hu
    rw [hlock]
    by_cases htu : u = t
    · subst htu
      replace hu : sk.Shut inbound := by simpa using hu
      exact hnoticed hu (Option.some.inj (hook.symm.trans (hhook.symm.trans hu.hook)))
    · replace hu : (σ.socks u).Shut inbound := by simpa [htu] using hu
      exact (hi u hu).imp_left hkeep.retired
  cases hm with
  | plain cb due free =>
    refine hi.keep hs.control.custody (fun _ _ => id) (fun u hu => ?_) id
    refine shut_update u (fun hsk => ?_) hu
    exact absurd (free.symm.trans hsk.hook) (fun h => by cases h)
  | plainWriteSpace cb due free =>
    refine hi.keep hs.control.custody (fun _ _ => id) (fun u hu => ?_) id
    refine shut_update u (fun hsk => ?_) hu
    exact absurd (free.symm.trans hsk.hook) (fun h => by cases h)
  | dataReady b hook due | writeSpace b hook due | writeSpaceTail b hook due | tailEnd b hook due =>
    exact keep (by rw [due]; rfl) ⟨_, rfl, rfl, rfl⟩
  | tailRetry b hook tail due | tailBootstrap b hook tail due | tailRemoval b hook tail due =>
    exact keep (by rw [due]; rfl) ⟨_, rfl, rfl, rfl⟩
  | stateSkip b hook due skipped =>
    have hnoticed := stateSkip_noticed hs hook skipped
    exact state hook rfl rfl fun _ _ => hnoticed
  | stateEnter b hook due =>
    refine state hook rfl rfl fun hsk _ => ?_
    cases hsk.heard
  | stateSection b hook due =>
    exact state hook rfl rfl fun hsk _ => stateSection_noticed hs hook hsk.closed

/-- An accepted socket that gets the peer's callbacks is not closed, or its state callback is still
to come. -/
def setupHeard (σ : State) : Action → Bool
  | .locked _ =>
      match σ.lock with
      | some (.promoteSetup s) | some (.installSetup s) =>
          !(σ.socks s).skState.closed || (σ.socks s).callback.any Callback.early
      | _ => true
  | _ => true

/-- The holder goes on, and does not touch a socket. -/
theorem Noticed.goes (hi : σ.Noticed inbound) (hs : σ.Sound) (hl : σ.lock = some h)
    (hretired : ∀ s, (σ.socks s).stage = .owned → σ.peer.Retired s → τ.peer.Retired s)
    (hsocks : ∀ s, (τ.socks s).Shut inbound → (σ.socks s).Shut inbound)
    (hlock : h.arriving = true → τ.lock.any Holder.arriving = true) : τ.Noticed inbound :=
  hi.keep hs.control.custody hretired hsocks (by rw [hl]; exact hlock)

theorem LockedMove.noticed {choice : Choice} (hm : σ.LockedMove h τ) (hl : σ.lock = some h)
    (hs : σ.Sound) (hkept : h.drops σ.peer = false)
    (hheard : inbound = true → σ.setupHeard (.locked choice) = true) (hi : σ.Noticed inbound) :
    τ.Noticed inbound := by
  obtain ⟨hok, hin⟩ := hs.control.holder h hl
  have hretired (t : SockId) (howned : (σ.socks t).stage = .owned) (hr : σ.peer.Retired t) :=
    hm.retired hl hs.control hkept howned hr
  have goes := hi.goes (τ := τ) hs hl hretired
  -- Without a socket, none has the callbacks.
  have unlinked (hnone : σ.peer.links = .none) (t : SockId) :
      (σ.socks t).userData ≠ some inbound := by
    intro hook
    have := (hs.control.custody.on_of_hook hook).1
    rw [hnone] at this
    cases this
  have only {t u : SockId} (hlinks : σ.peer.links = .on t false)
      (hook : (σ.socks u).userData = some inbound) : u = t := by
    have := (hs.control.custody.on_of_hook hook).1
    rw [hlinks] at this
    simp only [Links.on, Links.mk.injEq, Option.some.injEq] at this
    exact this.1.symm
  cases hm with
  | pass passes =>
    cases passes with
    | unwindUnowned caller t links => exact fun u hu => absurd hu.hook (unlinked links u)
    | connectSetupFailed | startFailed | finishFailed => exact goes (fun _ => id) fun _ => rfl
    | _ => exact goes (fun _ => id) (fun h => by cases h)
  | @setup _ k t b setsUp live free callback =>
    cases setsUp with
    | connect => exact fun _ _ => .inr rfl
    | promote | install =>
      refine goes (fun u hu => ?_) (fun h => by cases h)
      refine shut_update u (fun hsk => ?_) hu
      have hheard := hheard (Option.some.inj hsk.hook).symm
      simp [setupHeard, hl, show (σ.socks t).skState.closed = true from hsk.closed,
        show (σ.socks t).callback.any Callback.early = false from hsk.heard] at hheard
  | start caller t callback =>
    refine goes (fun u hu => ?_) fun _ => rfl
    refine shut_update u (fun hsk => ?_) hu
    cases hsk.closed
  | connectFinish caller t first p finish =>
    obtain ⟨-, hdialing, -⟩ := Peer.connectFinish_some hok.1 finish
    intro u hu
    have hclosed : (σ.socks u).skState.closed = true := hu.closed
    rw [only hok.1 hu.hook, TcpState.not_closed_of_dialing hdialing] at hclosed
    cases hclosed
  | unwindClaim caller t links =>
    intro u hu
    obtain rfl := only links hu.hook
    have hsocket : σ.peer.links.outboundSocket = some u := by rw [links]; rfl
    exact .inl (.inr (.inr (.inr (.inl ⟨rfl, rfl, hsocket⟩))))
  | connectReturn => exact goes (by simp) (fun h => by cases h)
  | create caller t unused | connectPublish caller t =>
    refine goes (fun u hu => ?_) (fun h => by cases h)
    exact shut_update u (by rintro ⟨h₁, h₂, h₃⟩; exact ⟨h₁, h₂, h₃⟩) hu
  | promotePublish t =>
    refine goes (fun u hu => ?_) (fun h => by cases h)
    exact shut_update u (by rintro ⟨h₁, h₂, h₃⟩; exact ⟨h₁, h₂, h₃⟩) hu
  | reset t owner | handoverReset t =>
    refine goes (fun u hu => ?_) (fun h => by cases h)
    refine shut_update u (fun hsk => ?_) hu
    cases hsk.hook
  | shutdown t owner =>
    refine goes (fun u hu => ?_) (fun h => by cases h)
    refine shut_update u (fun hsk => ?_) hu
    exact absurd hsk.hook (unlinked hok.1 t)
  | rearm rearms => exact goes (fun _ => id) (by cases rearms <;> intro h <;> cases h)
  | _ => exact goes (fun _ => id) (fun h => by cases h)

theorem step_noticed {A : SkbAllocator} {queueLimit : Nat} {a : Action} (hs : σ.Sound)
    (hkept : σ.ClaimKept a) (hheard : inbound = true → σ.setupHeard a = true)
    (hi : σ.Noticed inbound) (h : σ.step A queueLimit a = some τ) : τ.Noticed inbound := by
  have hcustody := hs.control.custody
  have hretired (t : SockId) := step_retired (s := t) hs.control hkept h
  cases a with
  | kernel e =>
    obtain ⟨sk, hsk, rfl⟩ := Option.map_eq_some_iff.mp h
    refine hi.keep hcustody hretired (fun u hu => ?_) id
    exact shut_update u (kernel_shut hsk) hu
  | callback t => exact callbackStep_noticed hs hi h
  | read choice =>
    have hlock := (readStep_arming h).lock
    refine hi.keep hcustody hretired (fun u hu => ?_) (by rw [hlock]; exact id)
    cases readStep_cases h with
    | pass t n => exact shut_update u (by rintro ⟨h₁, h₂, h₃⟩; exact ⟨h₁, h₂, h₃⟩) hu
    | _ => exact hu
  | write choice =>
    have hlock := (writeStep_arming h).lock
    refine hi.keep hcustody hretired (fun u hu => ?_) (by rw [hlock]; exact id)
    cases writeStep_cases h with
    | dequeue t =>
      unfold writeDequeue at hu
      split at hu <;> exact hu
    | send t | arm t => exact shut_update u (by rintro ⟨h₁, h₂, h₃⟩; exact ⟨h₁, h₂, h₃⟩) hu
    | _ => exact hu
  | request r =>
    have hlock := (requestStep_arming h).lock
    refine hi.keep hcustody hretired (fun u hu => ?_) (by rw [hlock]; exact id)
    cases requestStep_cases h with
    | accept frame t => exact shut_update u (by rintro ⟨h₁, h₂, h₃⟩; exact ⟨h₁, h₂, h₃⟩) hu
    | aside aside => rwa [aside.socks] at hu
  | thread t choice =>
    cases threadStep_cases hs.control h with
    | aside aside =>
      exact hi.keep hcustody hretired (by rw [aside.socks]; exact fun _ => id)
        (by rw [aside.lock]; exact id)
    | acquire k entry free lock device peer socks =>
      exact hi.keep hcustody hretired (by rw [socks]; exact fun _ => id) (by simp [free])
    | promotionClaim t connectionId stage =>
      refine hi.keep hcustody hretired (fun u hu => ?_) id
      exact shut_update u (by rintro ⟨h₁, h₂, h₃⟩; exact ⟨h₁, h₂, h₃⟩) hu
    | _ => exact hi.keep hcustody hretired (fun _ => id) id
  | locked choice =>
    obtain ⟨k, hk, h⟩ := Option.bind_eq_some_iff.mp h
    refine (lockedStep_cases hs.control hk h).noticed hk hs ?_ hheard hi
    simpa [ClaimKept, dropsClaim, hk] using hkept
  | lifecycle l =>
    cases lifecycleStep_cases hs.control h with
    | install t connectionId stage temp free =>
      refine hi.keep hcustody hretired (fun u hu => ?_) (by simp [free])
      exact shut_update u (by rintro ⟨h₁, h₂, h₃⟩; exact ⟨h₁, h₂, h₃⟩) hu
    | handover t free => exact hi.keep hcustody hretired (fun _ => id) (by simp [free])
    | _ => exact hi.keep hcustody hretired (fun _ => id) id

/-! ## Callbacks are installed before the lock is given back -/

def Installed (σ : State) : Prop :=
  σ.peer.links = .none ∨ σ.peer.hooks ≠ .none ∨ σ.lock.any Holder.unhooks = true

theorem Installed.keep (hi : σ.Installed) (hlinks : τ.peer.links = σ.peer.links)
    (hhooks : τ.peer.hooks = σ.peer.hooks)
    (hlock : σ.lock.any Holder.unhooks = true → τ.lock.any Holder.unhooks = true) :
        τ.Installed := by
  unfold Installed
  rw [hlinks, hhooks]
  exact hi.imp_right (.imp_right hlock)

theorem Installed.goes (hi : σ.Installed) (hl : σ.lock = some h)
    (hlinks : τ.peer.links = σ.peer.links) (hhooks : τ.peer.hooks = σ.peer.hooks)
    (hlock : h.unhooks = true → τ.lock.any Holder.unhooks = true) : τ.Installed :=
  hi.keep hlinks hhooks (by rw [hl]; exact hlock)

theorem LockedMove.installed (hm : σ.LockedMove h τ) (hl : σ.lock = some h) (hc : σ.Control)
    (htemp : σ.peer.tempPeer = false) (hi : σ.Installed) : τ.Installed := by
  obtain ⟨hok, hin⟩ := hc.holder h hl
  cases hm with
  | pass passes =>
    cases passes with
    | unwindUnowned caller t links => exact .inl links
    | connectSetupFailed | promoteSetupFailed | promoteForget =>
      exact hi.goes hl rfl rfl fun _ => rfl
    | _ => exact hi.goes hl rfl rfl (fun h => by cases h)
  | connectPublish | promotePublish | unwindClaim => exact .inr (.inr rfl)
  | @setup _ k t b => exact .inr (.inl (by cases b <;> intro h <;> cases h))
  | connectFinish caller t first p finish =>
    obtain ⟨-, -, conn, -, rfl⟩ := Peer.connectFinish_some hok.1 finish
    exact hi.goes hl rfl rfl (fun h => by cases h)
  | unwindQueue =>
    rw [Peer.unwindQueue_eq]
    exact hi.goes hl rfl rfl (fun h => by cases h)
  | connectReturn => exact hi.goes hl (by simp) (by simp) (fun h => by cases h)
  | rearm rearms =>
    rw [Peer.rearm_eq]
    exact hi.goes hl rfl rfl (by cases rearms <;> intro h <;> cases h)
  | cancelRead plan => exact hi.goes hl rfl rfl id
  | cancelWrite plan => exact hi.goes hl rfl rfl id
  | clearFlags plan =>
    cases plan with
    | detach => exact hi.goes hl rfl rfl fun _ => rfl
    | _ => exact hi.goes hl rfl rfl (fun h => by cases h)
  | reset => exact .inr (.inr rfl)
  | release => exact .inl rfl
  | purge | shutdown => exact .inl hok.1
  | installData | installFinish | installFail | handoverNothing | handoverClaim | handoverReset
  | handoverDetach => simp [Inside, Holder.thread, htemp] at hin
  | destroyed => exact absurd (htemp.symm.trans hok.2) (by simp)
  | _ => exact hi.goes hl rfl rfl (fun h => by cases h)

theorem step_installed {A : SkbAllocator} {queueLimit : Nat} {a : Action} (hc : σ.Control)
    (htemp : σ.peer.tempPeer = false) (hi : σ.Installed) (h : σ.step A queueLimit a = some τ) :
    τ.Installed := by
  cases a with
  | kernel e =>
    obtain ⟨sk, -, rfl⟩ := Option.map_eq_some_iff.mp h
    exact hi.keep rfl rfl id
  | callback t =>
    have hm := callbackStep_cases h
    exact hi.keep hm.outside.links hm.outside.hooks (by rw [hm.frame.1]; exact id)
  | read choice =>
    have ha := readStep_arming h
    exact hi.keep ha.keeps.links ha.keeps.hooks (by rw [ha.lock]; exact id)
  | write choice =>
    have ha := writeStep_arming h
    exact hi.keep ha.keeps.links ha.keeps.hooks (by rw [ha.lock]; exact id)
  | request r =>
    have ha := requestStep_arming h
    exact hi.keep ha.keeps.links ha.keeps.hooks (by rw [ha.lock]; exact id)
  | thread t choice =>
    cases threadStep_cases hc h with
    | aside aside => exact hi.keep aside.peer.links aside.peer.hooks (by rw [aside.lock]; exact id)
    | acquire k entry free lock device peer =>
      exact hi.keep (by rw [peer]) (by rw [peer]) (by simp [free])
    | stopBegin =>
      rw [htemp]
      exact hi.keep rfl rfl id
    | _ => exact hi.keep rfl rfl id
  | locked choice =>
    obtain ⟨k, hk, h⟩ := Option.bind_eq_some_iff.mp h
    exact (lockedStep_cases hc hk h).installed hk hc htemp hi
  | lifecycle l =>
    cases lifecycleStep_cases hc h with
    | deviceUp done temp links =>
      unfold Peer.wgOpen
      split <;> exact hi.keep rfl rfl id
    | install t connectionId stage temp => exact absurd (htemp.symm.trans temp) (by simp)
    | handover t free => exact hi.keep rfl rfl (by simp [free])
    | _ => exact hi.keep rfl rfl id

theorem hook_of_hooks (hc : σ.Custody) (hhooks : σ.peer.hooks ≠ .none)
    (hlinks : σ.peer.links = .on s inbound) : (σ.socks s).userData = some inbound := by
  rcases hc.hooks with hu | ⟨t, b, hon, -, hu⟩
  · exact absurd hu.hooks hhooks
  · obtain ⟨rfl, rfl⟩ : t = s ∧ b = inbound := by
      rw [hlinks] at hon
      cases inbound <;> cases b <;> simp_all [Links.on]
    simp [hu]

/-- While nobody holds the lock, the peer's socket has its callbacks. -/
theorem Installed.hook (hi : σ.Installed) (hc : σ.Custody) (hfree : σ.lock = none)
    (hlinks : σ.peer.links = .on s inbound) : (σ.socks s).userData = some inbound := by
  rcases hi with hnone | hhooks | hl
  · rw [hlinks] at hnone
    cases hnone
  · exact hook_of_hooks hc hhooks hlinks
  · simp [hfree] at hl

/-! ## Closed while dialing -/

variable {A : SkbAllocator} {queueLimit : Nat} {tempPeer : Bool} {addressing : Addressing}
  {as : List Action}

/-- A read that ends the stream is on a socket that the peer is done with, or that is closed with
the peer's callbacks on it while no connect is in progress. -/
def recvHandled (σ : State) : Action → Bool
  | .read choice =>
      match σ.reader with
      | .loop s _ =>
          !choice.recv.terminal || decide (σ.peer.Retired s) ||
            ((σ.socks s).userData.isSome && (σ.socks s).skState.closed && !σ.peer.conn.connecting)
      | _ => true
  | _ => true

def RecvHandled (σ : State) (a : Action) : Prop :=
  σ.recvHandled a = true ∧ σ.setupHeard a = true ∧ σ.ClaimKept a

instance (σ : State) (a : Action) : Decidable (σ.RecvHandled a) :=
  inferInstanceAs (Decidable (_ ∧ _ ∧ _))

structure RecvOk (σ : State) : Prop where
  pinned : ∀ s n, σ.reader = .loop s n → (σ.socks s).stage = .owned
  ended : ∀ s, (σ.socks s).recvEnded = true →
    (σ.socks s).stage = .owned ∧ σ.peer.Retired s ∧ ∀ n, σ.reader ≠ .loop s n

theorem recvOk_init (tempPeer : Bool) (addressing : Addressing) :
    (State.init tempPeer addressing).RecvOk :=
  ⟨(fun _ _ h => by cases h), (fun _ h => by cases h)⟩

/-- The reader leaves its loop when a read ends the stream. -/
theorem readIteration_terminal {A : SkbAllocator} {o : ReadOutcome} {queue : Bytes}
    {choice : RecvChoice} {p : Parser}
    (h : (readIteration A o (kernelRecvmsg queue choice) p).recv.any RecvResult.terminal = true) :
    choice.terminal = true ∧ (readIteration A o (kernelRecvmsg queue choice) p).flow = .stop := by
  have finish (r : Option RecvResult) (x : Except Parser (Option Record × Parser)) :
      (finishPass r x).recv = r := by
    cases x <;> rfl
  have hchoice (n : Nat) (hr : (kernelRecvmsg queue choice n).terminal = true) :
      choice.terminal = true := by
    by_contra hc
    rw [kernelRecvmsg_terminal (by simpa using hc)] at hr
    cases hr
  unfold readIteration at h ⊢
  split at h
  · cases h
  split at h
  · rw [finish] at h
    cases h
  split at h
  · cases h
  split at h
  · cases h
  split at h
  · rw [finish] at h
    cases h
  · cases h
  all_goals
    rename_i hres
    simp [*]
    exact hchoice _ (by rw [hres]; rfl)

/-- A closed socket with the peer's callbacks is retired when no callback of it is under way. -/
theorem Noticed.retired (hs : σ.Sound) (hnoticed : ∀ inbound, σ.Noticed inbound)
    (hook : (σ.socks s).userData.isSome = true) (hclosed : (σ.socks s).skState.closed = true)
    (hcallback : (σ.socks s).callback = none) (hconnecting : σ.peer.conn.connecting = false) :
    σ.peer.Retired s := by
  obtain ⟨inbound, hook⟩ := Option.isSome_iff_exists.mp hook
  have hlinks := (hs.control.custody.on_of_hook hook).1
  refine (hnoticed inbound s ⟨hook, hclosed, by rw [hcallback]; rfl⟩).resolve_right ?_
  cases inbound with
  | true => exact not_arriving_of_inbound hs.control hlinks
  | false =>
    intro harriving
    rw [(hs.coherent (hs.outboundOf hlinks)).conn.connecting] at hconnecting
    obtain ⟨k, hk, harriving⟩ := (Option.any_eq_true _ _).mp harriving
    rw [hk, Option.any_some, Holder.dialing_of_arriving harriving] at hconnecting
    cases hconnecting

/-- The writer leaves alone what a read changes. -/
theorem writeStep_unread {choice : SendChoice} (h : σ.writeStep choice = some τ) :
    τ.reader = σ.reader ∧ ∀ t, (τ.socks t).stage = (σ.socks t).stage ∧
      (τ.socks t).received = (σ.socks t).received ∧
      (τ.socks t).recvEnded = (σ.socks t).recvEnded := by
  have update (u : SockId) {sk : Sock} (hstage : sk.stage = (σ.socks u).stage)
      (hreceived : sk.received = (σ.socks u).received)
      (hended : sk.recvEnded = (σ.socks u).recvEnded) (t : SockId) :
      (Function.update σ.socks u sk t).stage = (σ.socks t).stage ∧
        (Function.update σ.socks u sk t).received = (σ.socks t).received ∧
        (Function.update σ.socks u sk t).recvEnded = (σ.socks t).recvEnded := by
    by_cases ht : t = u
    · subst ht
      simpa using ⟨hstage, hreceived, hended⟩
    · simp [ht]
  cases writeStep_cases h with
  | dequeue u =>
    unfold writeDequeue
    split <;> exact ⟨rfl, fun _ => ⟨rfl, rfl, rfl⟩⟩
  | send u | arm u => exact ⟨rfl, update u rfl rfl rfl⟩
  | _ => exact ⟨rfl, fun _ => ⟨rfl, rfl, rfl⟩⟩

theorem readStep_recvOk {A : SkbAllocator} {choice : ReadChoice} (hs : σ.Sound)
    (hnoticed : ∀ inbound, σ.Noticed inbound) (hi : σ.RecvOk)
    (hcond : σ.recvHandled (.read choice) = true) (h : σ.readStep A choice = some τ) :
    τ.RecvOk := by
  cases readStep_cases h with
  | start hidle work =>
    have hcapture (t : SockId) (n : Nat) (ht : σ.readStart.reader = .loop t n) :
        σ.peer.captureSocket σ.device = some t := by
      simp only [readStart] at ht
      split at ht
      · cases ht
        assumption
      · cases ht
    refine ⟨fun t n ht => ?_, fun t ht => ?_⟩
    · exact owned_of_active hs.control.custody (Peer.captureSocket_eq_some.mp (hcapture t n ht)).2.2
    · obtain ⟨howned, hr, -⟩ := hi.ended t ht
      refine ⟨howned, hr.of_eq rfl rfl rfl ⟨rfl, rfl⟩ ⟨rfl, rfl⟩, fun n hn => ?_⟩
      exact hr.captureSocket σ.device (hcapture t n hn)
  | pass u n hpc callback =>
    have howned := hi.pinned u n hpc
    have hopen : (σ.socks u).recvEnded = false := by
      by_contra hended
      exact (hi.ended u (by simpa using hended)).2.2 n hpc
    set it := σ.readIterationOn A choice u with hit
    have hreader (t : SockId) (m : Nat) (ht : nextReadPc u n it.flow = .loop t m) :
        t = u ∧ it.flow ≠ .stop := by
      unfold nextReadPc at ht
      split at ht
      · cases ht
      · rename_i hnext
        cases ht
        exact ⟨rfl, fun hstop => by simp [hstop, nextReaderPc] at hnext⟩
      · cases ht
    refine ⟨fun t m ht => ?_, fun t hended => ?_⟩
    · obtain rfl := (hreader t m ht).1
      simpa [readPass, readSock] using howned
    · by_cases ht : t = u
      · subst ht
        have hterminal : it.recv.any RecvResult.terminal = true := by
          simpa [readPass, readSock, hopen] using hended
        obtain ⟨hchoice, hstop⟩ := readIteration_terminal hterminal
        refine ⟨by simpa [readPass, readSock] using howned, ?_, fun m hm => ?_⟩
        · refine Peer.Retired.of_eq (?_ : σ.peer.Retired t) rfl rfl rfl ⟨rfl, rfl⟩ ⟨rfl, rfl⟩
          simp only [recvHandled, hpc, hchoice, Bool.or_eq_true, Bool.and_eq_true,
            Bool.not_eq_true', decide_eq_true_eq, Bool.true_eq_false, false_or] at hcond
          rcases hcond with hr | ⟨⟨hook, hclosed⟩, hconnecting⟩
          · exact hr
          · exact Noticed.retired hs hnoticed hook hclosed callback hconnecting
        · exact (hreader t m hm).2 hstop
      · obtain ⟨howned', hr, hne⟩ := hi.ended t (by simpa [readPass, ht] using hended)
        refine ⟨by simpa [readPass, ht] using howned', hr.of_eq rfl rfl rfl ⟨rfl, rfl⟩ ⟨rfl, rfl⟩,
          fun m hm => ?_⟩
        exact ht (hreader t m hm).1
  | finish captured budgetExhausted hpc =>
    have hkeep := (readStep_arming h).keeps
    refine ⟨(fun _ _ h => by cases h), fun t hended => ?_⟩
    obtain ⟨howned, hr, -⟩ := hi.ended t hended
    exact ⟨howned, hkeep.retired hr, (fun _ h => by cases h)⟩

theorem step_recvOk {A : SkbAllocator} {queueLimit : Nat} {a : Action} (hs : σ.Sound)
    (hnoticed : ∀ inbound, σ.Noticed inbound) (hi : σ.RecvOk) (hcond : σ.RecvHandled a)
    (h : σ.step A queueLimit a = some τ) : τ.RecvOk := by
  have retired {t : SockId} := step_retired (s := t) hs.control hcond.2.2 h
  have keep (hreader : τ.reader = σ.reader)
      (hsocks : ∀ t, ((σ.socks t).stage = .owned → (τ.socks t).stage = .owned) ∧
        (τ.socks t).recvEnded = (σ.socks t).recvEnded) : τ.RecvOk := by
    constructor
    · rw [hreader]
      exact fun t n ht => (hsocks t).1 (hi.pinned t n ht)
    · rw [hreader]
      intro t hended
      obtain ⟨howned, hr, hne⟩ := hi.ended t ((hsocks t).2 ▸ hended)
      exact ⟨(hsocks t).1 howned, retired howned hr, hne⟩
  rcases step_beside hs.control h with ⟨choice, rfl⟩ | ⟨choice, rfl⟩ | hbeside
  · exact readStep_recvOk hs hnoticed hi hcond.1 h
  · obtain ⟨hreader, hsocks⟩ := writeStep_unread h
    exact keep hreader fun t => ⟨fun howned => (hsocks t).1.trans howned, (hsocks t).2.2⟩
  · exact keep hbeside.reader fun t => ⟨(hbeside.socks t).stage, (hbeside.socks t).recvEnded⟩

/-- Nothing is read from a socket whose stream has ended. -/
theorem step_received {A : SkbAllocator} {queueLimit : Nat} {a : Action} (hs : σ.Sound)
    (hi : σ.RecvOk) (hended : (σ.socks s).recvEnded = true) (h : σ.step A queueLimit a = some τ) :
    (τ.socks s).recvEnded = true ∧ (τ.socks s).received = (σ.socks s).received := by
  rcases step_beside hs.control h with ⟨choice, rfl⟩ | ⟨choice, rfl⟩ | hbeside
  · cases readStep_cases h with
    | pass u n hpc =>
      have hne : s ≠ u := by
        rintro rfl
        exact (hi.ended s hended).2.2 n hpc
      simpa [readPass, hne] using hended
    | _ => exact ⟨hended, rfl⟩
  · obtain ⟨-, hsocks⟩ := writeStep_unread h
    exact ⟨(hsocks s).2.2.trans hended, (hsocks s).2.1⟩
  · exact ⟨(hbeside.socks s).recvEnded.trans hended, (hbeside.socks s).received⟩

/-- What holds of every state that is reached by steps that meet `RecvHandled`. -/
structure Heard (σ : State) : Prop where
  sound : σ.Sound
  noticed : ∀ inbound, σ.Noticed inbound
  recv : σ.RecvOk

theorem heard_init (tempPeer : Bool) (addressing : Addressing) :
    (State.init tempPeer addressing).Heard :=
  ⟨sound_init tempPeer addressing, fun _ => noticed_init tempPeer addressing,
    recvOk_init tempPeer addressing⟩

theorem Heard.step {A : SkbAllocator} {queueLimit : Nat} {a : Action} (hi : σ.Heard)
    (hcond : σ.RecvHandled a) (h : σ.step A queueLimit a = some τ) : τ.Heard where
  sound := hi.sound.step h
  noticed := fun inbound =>
    step_noticed hi.sound hcond.2.2 (fun _ => hcond.2.1) (hi.noticed inbound) h
  recv := step_recvOk hi.sound hi.noticed hi.recv hcond h

/-- A terminal receive claims the socket: the peer is done with it, and nothing more is read from it
in any continuation of the run. -/
theorem terminal_receive_retires (h : Reaches A queueLimit tempPeer addressing as σ)
    (hcond : Transition.Meets (step A queueLimit) RecvHandled (.init tempPeer addressing) as)
    (hended : (σ.socks s).recvEnded = true) :
    σ.peer.Retired s ∧
    ∀ bs τ, Transition.run (step A queueLimit) σ bs = some τ →
      Transition.Meets (step A queueLimit) RecvHandled σ bs →
      τ.peer.Retired s ∧ (τ.socks s).received = (σ.socks s).received := by
  have hheard := Transition.run_invariant_of_meets (I := Heard)
    (fun _ _ _ hi hcond h => hi.step hcond h) (heard_init tempPeer addressing) hcond h
  refine ⟨(hheard.recv.ended s hended).2.1, fun bs τ hrun hbs => ?_⟩
  obtain ⟨hheard', hended', hreceived⟩ := Transition.run_invariant_of_meets
    (I := fun ρ => ρ.Heard ∧ (ρ.socks s).recvEnded = true ∧
      (ρ.socks s).received = (σ.socks s).received)
    (fun ρ a ρ' hi hcond hstep => by
      obtain ⟨hi, hended, hreceived⟩ := hi
      obtain ⟨hended', hreceived'⟩ := step_received hi.sound hi.recv hended hstep
      exact ⟨hi.step hcond hstep, hended', hreceived'.trans hreceived⟩)
    ⟨hheard, hended, rfl⟩ hbs hrun
  exact ⟨(hheard'.recv.ended s hended').2.1, hreceived⟩

/-- The carrier closes while its reader is under way, and the next read returns zero. -/
def closedReadRun : List Action :=
  inboundRun ++ [.kernel (.arrive 0 [1]), .callback 0, .read ⟨.ok, .again⟩,
    .kernel (.transition 0 .closeWait), .callback 0, .callback 0, .callback 0, .read ⟨.ok, .close⟩]

theorem terminal_receive_retires_closed : ∃ σ,
    Reaches exactAllocator 4 false .unset closedReadRun σ ∧ (σ.socks 0).recvEnded = true ∧
    σ.peer.links.peerSocket = some 0 ∧ σ.peer.Retired 0 := by
  have hrun : ((Transition.run (step exactAllocator 4) (.init false .unset) closedReadRun).any
      fun σ => decide ((σ.socks 0).recvEnded = true ∧
        σ.peer.links.peerSocket = some 0)) = true := by
    decide +kernel
  obtain ⟨σ, hσ, hcheck⟩ := Transition.exists_run_of_any hrun
  obtain ⟨hended, hactive⟩ := of_decide_eq_true hcheck
  exact ⟨σ, hσ, hended, hactive, (terminal_receive_retires hσ (by decide +kernel) hended).1⟩

/-- A read of an established carrier fails, and the reader returns. -/
def failedReadRun : List Action :=
  inboundRun ++ [.kernel (.arrive 0 sampleRecord.frame), .callback 0, .read ⟨.ok, .again⟩,
    .read ⟨.ok, .fail⟩, .read ⟨.ok, .again⟩]

/-- Nobody claims the carrier, and its next worker reads a record from it. -/
theorem terminal_receive_retires_fails : ∃ σ τ,
    Reaches exactAllocator 4 false .unset failedReadRun σ ∧
    Reaches exactAllocator 4 false .unset (failedReadRun ++ [.read ⟨.ok, .again⟩]) τ ∧
    (σ.socks 0).recvEnded = true ∧ σ.reader = .idle ∧ ¬ σ.peer.Retired 0 ∧
    (τ.readIterationOn exactAllocator ⟨.ok, .take 39⟩ 0).record = some sampleRecord := by
  have hrun : ((Transition.run (step exactAllocator 4) (.init false .unset) failedReadRun).any
      fun σ => decide ((σ.socks 0).recvEnded = true ∧ σ.reader = .idle ∧ ¬ σ.peer.Retired 0)) =
      true := by
    decide +kernel
  have hlater : ((Transition.run (step exactAllocator 4) (.init false .unset)
      (failedReadRun ++ [.read ⟨.ok, .again⟩])).any fun τ =>
        decide ((τ.readIterationOn exactAllocator ⟨.ok, .take 39⟩ 0).record =
          some sampleRecord)) = true := by
    decide +kernel
  obtain ⟨σ, hσ, hcheck⟩ := Transition.exists_run_of_any hrun
  obtain ⟨τ, hτ, hrecord⟩ := Transition.exists_run_of_any hlater
  obtain ⟨hended, hidle, hactive⟩ := of_decide_eq_true hcheck
  exact ⟨σ, τ, hσ, hτ, hended, hidle, hactive, of_decide_eq_true hrecord⟩

end State

end WgTcp
