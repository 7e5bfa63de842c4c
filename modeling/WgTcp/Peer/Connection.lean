import WgTcp.Peer.Claims

/-!
# The connection flags

`tcp_connecting` is set exactly while a thread is dialing or unwinding under
`tcp_socket_lock`; `tcp_established` needs a socket with one of its directions
connected, `tcp_pending` an outbound socket. In between there is one odd
state: a socket that is established and closed while it is being dialed
leaves `tcp_established` set with neither direction connected, and the dialing
thread has to notice.
-/

namespace WgTcp

/-! ## Threads that dial -/

def Owner.dialing : Owner → Bool
  | .unwind _ => true
  | _ => false

def Plan.dialing : Plan → Bool
  | .detach _ owner => owner.dialing
  | _ => false

/-- From the claim of `tcp_connecting` to where it is dropped. -/
def Holder.dialing : Holder → Bool
  | .connectCreate _ | .connectPublish _ _ | .connectSetup _ _ | .connectStart _ _
  | .connectFinish _ _ | .unwind _ _ | .unwindFinish _ => true
  | .drain _ plan _ | .cancelRead plan | .cancelWrite plan | .clearFlags plan => plan.dialing
  | .reset _ owner | .release _ owner | .purge _ owner | .shutdown _ owner => owner.dialing
  | _ => false

/-- Before `kernel_connect`. -/
def Holder.opening : Holder → Bool
  | .connectCreate _ | .connectPublish _ _ | .connectSetup _ _ | .connectStart _ _ => true
  | _ => false

/-- The socket that `kernel_connect` is going to be called on. -/
def Holder.opens : Holder → Option SockId
  | .connectSetup _ s | .connectStart _ s => some s
  | _ => none

theorem Holder.passing_dialing {k : Holder} (h : k.passing = true) : k.dialing = false := by
  cases k <;> first | rfl | cases h

theorem TcpState.not_reaches_of_close (st : TcpState) : TcpState.close.reaches st = false := by
  cases st <;> rfl

theorem TcpState.closed_of_reaches {st st' : TcpState} (h : st.closed = true)
    (hr : st.reaches st' = true) : st'.closed = true := by
  cases st <;> first | (cases h; done) | (cases st' <;> first | rfl | cases hr)

theorem TcpState.not_closed_of_dialing {st : TcpState} (h : st.dialing = true) :
    st.closed = false := by
  cases st <;> first | rfl | cases h

section

variable (c : Connection)

@[simp] theorem Connection.settle_connecting : c.settle.connecting = c.connecting := by
  unfold Connection.settle
  split <;> rfl

@[simp] theorem Connection.settle_pending : c.settle.pending = c.pending := by
  unfold Connection.settle
  split <;> rfl

@[simp] theorem Connection.settle_inbound : c.settle.inbound = c.inbound := by
  unfold Connection.settle
  split <;> rfl

@[simp] theorem Connection.settle_outbound : c.settle.outbound = c.outbound := by
  unfold Connection.settle
  split <;> rfl

theorem Connection.settle_established (h : c.settle.established = true) :
    c.established = true ∧ (c.inbound = true ∨ c.outbound = true) := by
  unfold Connection.settle at h
  split at h
  · cases h
  · rename_i hconnected
    cases hin : c.inbound <;> simp_all

end

/-! ## The state section -/

namespace Peer

/-- What the state section of `wg_tcp_state_change` does to a configured peer whose socket it is. -/
inductive StateChange (p : Peer) (s : SockId) : Bool → TcpState → Peer → StateTail → Prop where
  | ignored {inbound : Bool} {st : TcpState} (notClosed : st.closed = false)
      (notEstablished : inbound = false → st ≠ .established) : StateChange p s inbound st p .nothing
  | established (first : Bool) :
      StateChange p s false .established
        { p with
          conn := { p.conn with pending := false, established := true, outbound := true }
          retry := { p.retry with scheduled := false } }
        ⟨p.retry.scheduled, first, false⟩
  | closedInbound {st : TcpState} (closed : st.closed = true) :
      StateChange p s true st
        { p with
          conn := { p.conn with inbound := false }.settle
          inboundRemove :=
            if p.inboundRemove.scheduled then p.inboundRemove else p.inboundRemove.mark (some s) }
        ⟨false, false, !p.inboundRemove.scheduled⟩
  | closedDialing {st : TcpState} (closed : st.closed = true)
      (connecting : p.conn.connecting = true) :
      StateChange p s false st
        { p with conn := { p.conn with outbound := false, pending := false } } .nothing
  | closedOutbound {st : TcpState} (closed : st.closed = true)
      (connecting : p.conn.connecting = false) :
      StateChange p s false st
        { p with
          conn := { p.conn with outbound := false, pending := false }.settle
          tcpReconnectRequested := true
          outboundRemove :=
            if p.outboundRemove.scheduled then p.outboundRemove
            else p.outboundRemove.mark (some s) }
        ⟨false, false, !p.outboundRemove.scheduled⟩

theorem stateChangeSection_cases {p : Peer} {s : SockId} {inbound : Bool} (st : TcpState)
    (htemp : p.tempPeer = false) (hlinks : p.links = .on s inbound) :
    p.StateChange s inbound st (p.stateChangeSection s inbound st).1
      (p.stateChangeSection s inbound st).2 := by
  have hactive : p.links.peerSocket = some s := by rw [hlinks]; rfl
  cases inbound with
  | true =>
    have hsocket : p.links.inboundSocket = some s := by rw [hlinks]; rfl
    unfold stateChangeSection stateEstablished stateClosedInbound
    split
    · rename_i hst
      rw [if_pos (by simp)]
      exact .ignored (by rw [hst]; rfl) (fun h => by cases h)
    split
    · rename_i hclosed
      rw [if_neg (by simp [htemp]), if_pos rfl, if_neg (by simp [hsocket]), hsocket]
      exact .closedInbound hclosed
    · rename_i hclosed
      exact .ignored (by simpa using hclosed) (fun h => by cases h)
  | false =>
    have hsocket : p.links.outboundSocket = some s := by rw [hlinks]; rfl
    unfold stateChangeSection stateEstablished wgTcpPublishOutboundEstablishedLocked
      stateClosedOutbound
    split
    · rename_i hst
      rw [if_neg (by simp [htemp, hsocket]), if_neg (by simp [hactive, hsocket]), hst]
      exact .established _
    split
    · rename_i hst hclosed
      rw [if_neg (by simp [htemp]), if_neg (by simp), if_neg (by simp [hsocket])]
      split
      · exact .closedDialing hclosed ‹_›
      · rename_i hconnecting
        rw [hsocket]
        exact .closedOutbound hclosed (by simpa using hconnecting)
    · rename_i hst hclosed
      exact .ignored (by simpa using hclosed) fun _ => hst

theorem StateChange.pending {p q : Peer} {s : SockId} {inbound : Bool} {st : TcpState}
    {tail : StateTail} (h : p.StateChange s inbound st q tail) (hq : q.conn.pending = true) :
    p.conn.pending = true := by
  cases h with
  | ignored => exact hq
  | established | closedDialing => cases hq
  | closedInbound => simpa using hq
  | closedOutbound => simp at hq

/-- What the section of a socket leaves to its tail, it has ended the attempt for; only the removal
of an inbound socket has nothing to do with one. -/
theorem StateChange.ended {p q : Peer} {s : SockId} {inbound : Bool} {st : TcpState}
    {tail : StateTail} (h : p.StateChange s inbound st q tail)
    (ht : tail.cancelRetry = true ∨ (tail.removal = true ∧ inbound = false)) :
    q.conn.pending = false := by
  cases h with
  | ignored => rcases ht with ht | ⟨ht, -⟩ <;> cases ht
  | established | closedDialing => rfl
  | closedInbound => rcases ht with ht | ⟨-, ht⟩ <;> cases ht
  | closedOutbound => simp

theorem stateChangeSection_addressing (p : Peer) (s : SockId) (inbound : Bool) (st : TcpState) :
    (p.stateChangeSection s inbound st).1.addressing = p.addressing := by
  unfold stateChangeSection stateEstablished wgTcpPublishOutboundEstablishedLocked
    stateClosedInbound stateClosedOutbound
  repeat' split
  all_goals rfl

end Peer

namespace State

variable {σ τ : State} {h k : Holder}

/-! ## The invariant -/

/-- Neither direction is connected any more, and the dialing thread will find out. -/
def Doomed (σ : State) (s : SockId) : Prop :=
  σ.peer.conn.connecting = true ∧ (σ.socks s).skState.closed = true

structure ConnOk (σ : State) : Prop where
  connecting : σ.peer.conn.connecting = σ.lock.any Holder.dialing
  fresh : ∀ s, (σ.socks s).stage = .unused ∨ (σ.socks s).stage = .dialing →
    (σ.socks s).skState = .close
  starting : ∀ s, σ.lock.bind Holder.opens = some s → (σ.socks s).skState = .close
  unestablished : σ.lock.any Holder.opening = true → σ.peer.conn.established = false
  established : σ.peer.conn.established = true → σ.peer.conn.pending = false ∧
    ∃ s, σ.peer.links.peerSocket = some s ∧
      (σ.peer.conn.inbound = true ∨ σ.peer.conn.outbound = true ∨ σ.Doomed s)
  dialed : σ.peer.conn.pending = true →
    σ.peer.conn.connecting = true ∨ σ.peer.links.outboundSocket.isSome = true
  endpoint : σ.peer.conn.pending = true → σ.peer.addressing.peerEndpointSet = true

theorem connOk_init (tempPeer : Bool) (addressing : Addressing) :
    (State.init tempPeer addressing).ConnOk where
  connecting := rfl
  fresh := fun _ _ => rfl
  starting := fun _ h => (by cases h)
  unestablished := fun _ => rfl
  established := fun h => (by cases h)
  dialed := fun h => (by cases h)
  endpoint := fun h => (by cases h)

theorem owned_of_active (hc : σ.Custody) {s : SockId} (hs : σ.peer.links.peerSocket = some s) :
    (σ.socks s).stage = .owned := by
  rcases hc.links with hl | ⟨t, inbound, hl, howned⟩
  · simp [hl, Links.none] at hs
  · obtain rfl : t = s := by simpa [hl, Links.on] using hs
    exact howned

theorem owned_of_opens (hc : σ.Control) {s : SockId} (hl : σ.lock = some k)
    (hs : k.opens = some s) : (σ.socks s).stage = .owned := by
  have hok := (hc.holder k hl).1
  cases k with
  | connectSetup caller t | connectStart caller t =>
    cases hs
    exact owned_of_active hc.custody (by rw [hok.1]; rfl)
  | _ => cases hs

/-- What a step that is not the holder's may do to a socket. -/
structure SockSteady (sk sk' : Sock) : Prop where
  fresh : sk'.stage = .unused ∨ sk'.stage = .dialing →
    (sk.stage = .unused ∨ sk.stage = .dialing) ∧ sk'.skState = sk.skState
  close : sk.stage = .owned → sk.skState = .close → sk'.skState = .close
  closed : sk.stage = .owned → sk.skState.closed = true → sk'.skState.closed = true

theorem SockSteady.of_eq {sk sk' : Sock} (hstage : sk'.stage = sk.stage)
    (hstate : sk'.skState = sk.skState) : SockSteady sk sk' := by
  constructor
  · rw [hstage]
    exact fun h => ⟨h, hstate⟩
  · rw [hstate]
    exact fun _ => id
  · rw [hstate]
    exact fun _ => id

theorem SockSteady.update {socks : SockId → Sock} {s : SockId} {sk : Sock}
    (h : SockSteady (socks s) sk) (t : SockId) :
    SockSteady (socks t) (Function.update socks s sk t) := by
  by_cases ht : t = s
  · subst ht
    simpa using h
  · simpa [ht] using SockSteady.of_eq rfl rfl

theorem kernel_sockSteady {sk sk' : Sock} {e : KernelEvent}
    (hfresh : sk.stage = .unused ∨ sk.stage = .dialing → sk.skState = .close)
    (h : sk.kernel e = some sk') : SockSteady sk sk' := by
  cases e with
  | accept s connectionId =>
    obtain ⟨hunused, ⟨⟩⟩ := Option.ite_none_right_eq_some.mp h
    refine ⟨fun h => (by rcases h with h | h <;> cases h), ?_, ?_⟩
    all_goals
      intro howned
      exact absurd (hunused.symm.trans howned) (fun h => by cases h)
  | arrive | room =>
    obtain ⟨-, ⟨⟩⟩ := Option.ite_none_right_eq_some.mp h
    exact .of_eq rfl rfl
  | transition s st =>
    obtain ⟨⟨-, -, hreach⟩, ⟨⟩⟩ := Option.ite_none_right_eq_some.mp h
    have hopen : sk.skState ≠ .close := by
      intro hclose
      simp [hclose, TcpState.not_reaches_of_close] at hreach
    refine ⟨fun h => absurd (hfresh h) hopen, fun _ h => absurd h hopen, fun _ h => ?_⟩
    exact TcpState.closed_of_reaches h hreach
  | foreignRead s n =>
    simp only [Sock.kernel] at h
    split at h
    · cases h
      exact .of_eq rfl rfl
    · cases h

/-! ## Steps outside the lock -/

/-- A step that leaves the connection flags alone. -/
theorem ConnOk.keep (hi : σ.ConnOk) (hc : σ.Control) (hconn : τ.peer.conn = σ.peer.conn)
    (hlinks : τ.peer.links = σ.peer.links) (hlock : τ.lock = σ.lock)
    (hendpoint : σ.peer.addressing.peerEndpointSet = true →
      τ.peer.addressing.peerEndpointSet = true)
    (hsocks : ∀ s, SockSteady (σ.socks s) (τ.socks s)) : τ.ConnOk where
  connecting := by rw [hconn, hlock, hi.connecting]
  fresh := fun s hs => ((hsocks s).fresh hs).2.trans (hi.fresh s ((hsocks s).fresh hs).1)
  starting := by
    rw [hlock]
    intro s hs
    obtain ⟨k, hk, hopens⟩ := Option.bind_eq_some_iff.mp hs
    exact (hsocks s).close (owned_of_opens hc hk hopens) (hi.starting s hs)
  unestablished := by
    rw [hlock, hconn]
    exact hi.unestablished
  established := by
    rw [hconn, hlinks]
    intro hest
    obtain ⟨hpending, s, hs, hconnected⟩ := hi.established hest
    refine ⟨hpending, s, hs, hconnected.imp_right (.imp_right fun hdoomed => ?_)⟩
    exact ⟨hconn ▸ hdoomed.1, (hsocks s).closed (owned_of_active hc.custody hs) hdoomed.2⟩
  dialed := by
    rw [hconn, hlinks]
    exact hi.dialed
  endpoint := by
    rw [hconn]
    exact fun h => hendpoint (hi.endpoint h)

/-- What a section outside the lock may do to the flags while `s` is the peer's socket. -/
structure ConnStep (σ : State) (s : SockId) (c : Connection) : Prop where
  connecting : c.connecting = σ.peer.conn.connecting
  pending : c.pending = true → σ.peer.conn.pending = true
  established : c.established = true → c.pending = false ∧
    (c.inbound = true ∨ c.outbound = true ∨ σ.Doomed s)
  opening : σ.lock.any Holder.opening = true → c.established = true →
    σ.peer.conn.established = true

theorem ConnOk.section (hi : σ.ConnOk) (hc : σ.Control) {s : SockId}
    (hs : σ.peer.links.peerSocket = some s)
    (hstep : σ.ConnStep s τ.peer.conn) (hlinks : τ.peer.links = σ.peer.links)
      (hlock : τ.lock = σ.lock)
    (haddressing : τ.peer.addressing = σ.peer.addressing)
    (hsocks : ∀ s, SockSteady (σ.socks s) (τ.socks s)) : τ.ConnOk where
  connecting := by rw [hstep.connecting, hlock, hi.connecting]
  fresh := fun s hs => ((hsocks s).fresh hs).2.trans (hi.fresh s ((hsocks s).fresh hs).1)
  starting := by
    rw [hlock]
    intro s hs
    obtain ⟨k, hk, hopens⟩ := Option.bind_eq_some_iff.mp hs
    exact (hsocks s).close (owned_of_opens hc hk hopens) (hi.starting s hs)
  unestablished := by
    rw [hlock]
    intro hl
    exact eq_false_of_imp (hstep.opening hl) (hi.unestablished hl)
  established := by
    rw [hlinks]
    intro hest
    obtain ⟨hpending, hconnected⟩ := hstep.established hest
    refine ⟨hpending, s, hs, hconnected.imp_right (.imp_right fun hdoomed => ?_)⟩
    exact ⟨hstep.connecting.trans hdoomed.1,
      (hsocks s).closed (owned_of_active hc.custody hs) hdoomed.2⟩
  dialed := by
    rw [hlinks, hstep.connecting]
    exact fun h => hi.dialed (hstep.pending h)
  endpoint := by
    rw [haddressing]
    exact fun h => hi.endpoint (hstep.pending h)

/-- A settled connection with no flag set anew. -/
theorem ConnStep.settle {s : SockId} {c : Connection}
    (hconnecting : c.connecting = σ.peer.conn.connecting)
    (hpending : c.pending = true → σ.peer.conn.pending = true)
    (hest : c.established = true → σ.peer.conn.established = true)
    (hnot : c.established = true → c.pending = false) : σ.ConnStep s c.settle where
  connecting := by simpa using hconnecting
  pending := by simpa using hpending
  established := by
    intro h
    obtain ⟨hc, hconnected⟩ := c.settle_established h
    exact ⟨by simpa using hnot hc, by simpa [← or_assoc] using .inl hconnected⟩
  opening := fun _ h => hest (c.settle_established h).1

theorem ConnOk.connStep (hi : σ.ConnOk) {s : SockId} (hs : σ.peer.links.peerSocket = some s) :
    σ.ConnStep s σ.peer.conn := by
  refine ⟨rfl, id, fun hest => ?_, fun _ => id⟩
  obtain ⟨hpending, t, ht, hconnected⟩ := hi.established hest
  obtain rfl : s = t := Option.some.inj (hs.symm.trans ht)
  exact ⟨hpending, hconnected⟩

theorem ConnOk.stateChange (hi : σ.ConnOk) {s : SockId} {inbound : Bool} {q : Peer}
    {tail : StateTail} (hs : σ.peer.links.peerSocket = some s)
    (hopening : σ.lock.any Holder.opening = true → (σ.socks s).skState ≠ .established)
    (h : σ.peer.StateChange s inbound (σ.socks s).skState q tail) : σ.ConnStep s q.conn := by
  generalize hst : (σ.socks s).skState = st at h
  cases h with
  | ignored => exact hi.connStep hs
  | established =>
    exact ⟨rfl, (fun h => by cases h), fun _ => ⟨rfl, .inr (.inl rfl)⟩,
      fun hl => absurd hst (hopening hl)⟩
  | closedInbound => exact .settle rfl id id fun hest => (hi.established hest).1
  | closedDialing closed connecting =>
    exact ⟨rfl, (fun h => by cases h), fun _ =>
      ⟨rfl, .inr (.inr ⟨connecting, by rw [hst]; exact closed⟩)⟩,
      fun _ => id⟩
  | closedOutbound => exact .settle rfl (fun h => by cases h) id fun _ => rfl

theorem ConnOk.aside (hi : σ.ConnOk) (hc : σ.Control) (ha : σ.Aside τ) : τ.ConnOk :=
  hi.keep hc ha.peer.conn ha.peer.links ha.lock ha.peer.endpoint fun s => by
    rw [ha.socks]
    exact .of_eq rfl rfl

/-- Where a socket is hooked, no connect is on its way to `kernel_connect` with another state than
that of a new socket. -/
theorem not_established_of_opening (hi : σ.ConnOk) (hc : σ.Control) {s : SockId} {inbound : Bool}
    (hook : (σ.socks s).userData = some inbound) (hl : σ.lock.any Holder.opening = true) :
    (σ.socks s).skState ≠ .established := by
  obtain ⟨hlinks, hhooks⟩ := hc.custody.on_of_hook hook
  obtain ⟨k, hk, hopening⟩ := (Option.any_eq_true _ _).mp hl
  have hok := (hc.holder k hk).1
  cases k with
  | connectCreate => cases hlinks.symm.trans hok
  | connectPublish => cases hlinks.symm.trans hok.1
  | connectSetup =>
    have hnone := hhooks.symm.trans hok.2
    cases inbound <;> cases hnone
  | connectStart caller t =>
    obtain rfl : s = t := by
      simpa [Links.on] using congrArg Links.peerSocket (hlinks.symm.trans hok.1)
    rw [hi.starting s (by rw [hk]; rfl)]
    intro h
    cases h
  | _ => cases hopening

theorem callbackStep_connOk {s : SockId} (hc : σ.Configured) (hi : σ.ConnOk)
    (h : σ.callbackStep s = some τ) : τ.ConnOk := by
  have hcontrol := hc.control
  have steady {socks : SockId → Sock} {sk : Sock} (hstage : sk.stage = (socks s).stage)
      (hstate : sk.skState = (socks s).skState) (t : SockId) :
      SockSteady (socks t) (Function.update socks s sk t) :=
    SockSteady.update (.of_eq hstage hstate) t
  cases callbackStep_cases h with
  | dataReady inbound =>
    have hkeep : (σ.peer.wgTcpDataReady σ.device).conn = σ.peer.conn ∧
        (σ.peer.wgTcpDataReady σ.device).links = σ.peer.links ∧
        (σ.peer.wgTcpDataReady σ.device).addressing = σ.peer.addressing := by
      unfold Peer.wgTcpDataReady
      split <;> exact ⟨rfl, rfl, rfl⟩
    exact hi.keep hcontrol hkeep.1 hkeep.2.1 rfl (hkeep.2.2 ▸ id) (steady rfl rfl)
  | writeSpace inbound =>
    have hkeep : (σ.peer.wgTcpWriteSpace σ.device).conn = σ.peer.conn ∧
        (σ.peer.wgTcpWriteSpace σ.device).links = σ.peer.links ∧
        (σ.peer.wgTcpWriteSpace σ.device).addressing = σ.peer.addressing := by
      unfold Peer.wgTcpWriteSpace
      rw [Peer.wgTcpScheduleWriteLocked_eq]
      split <;> exact ⟨rfl, rfl, rfl⟩
    exact hi.keep hcontrol hkeep.1 hkeep.2.1 rfl (hkeep.2.2 ▸ id) (steady rfl rfl)
  | stateSection inbound hook due =>
    obtain ⟨hlinks, -⟩ := hcontrol.custody.on_of_hook hook
    have hactive : σ.peer.links.peerSocket = some s := by rw [hlinks]; rfl
    have hm := Peer.stateChangeSection_cases (σ.socks s).skState hc.tempPeer hlinks
    have hkeep := (Peer.stateChangeSection_outside σ.device σ.peer s inbound (σ.socks s).skState)
    have hopening := not_established_of_opening hi hcontrol hook
    exact hi.section hcontrol hactive (hi.stateChange hactive hopening hm) hkeep.links rfl
      (Peer.stateChangeSection_addressing _ _ _ _) (steady rfl rfl)
  | tailRetry => exact hi.keep hcontrol rfl rfl rfl id (steady rfl rfl)
  | tailBootstrap =>
    have ha := Peer.wgTcpQueueCarrierBootstrap_aside σ.device σ.peer s
    exact hi.keep hcontrol ha.conn ha.links rfl ha.endpoint (steady rfl rfl)
  | tailRemoval inbound =>
    have ha := Peer.queueRemoval_aside σ.device σ.peer s inbound
    exact hi.keep hcontrol ha.conn ha.links rfl ha.endpoint (steady rfl rfl)
  | _ => exact hi.keep hcontrol rfl rfl rfl id (steady rfl rfl)

theorem readStep_connOk {A : SkbAllocator} {choice : ReadChoice} (hc : σ.Control) (hi : σ.ConnOk)
    (h : σ.readStep A choice = some τ) : τ.ConnOk := by
  have same (s : SockId) : SockSteady (σ.socks s) (σ.socks s) := .of_eq rfl rfl
  cases readStep_cases h with
  | start => exact hi.keep hc rfl rfl rfl id same
  | pass s n => exact hi.keep hc rfl rfl rfl id (SockSteady.update (.of_eq rfl rfl))
  | finish captured budget =>
    unfold readFinish Peer.finishReader
    split <;> exact hi.keep hc rfl rfl rfl id same

theorem wgTcpFailExactSocket_conn (hi : σ.ConnOk) {s : SockId}
    (hs : σ.peer.links.peerSocket = some s) :
    σ.ConnStep s (σ.peer.wgTcpFailExactSocket σ.device s).conn ∧
      (σ.peer.wgTcpFailExactSocket σ.device s).addressing = σ.peer.addressing := by
  have keep := hi.connStep hs
  unfold Peer.wgTcpFailExactSocket
  repeat' split
  all_goals first | exact ⟨keep, rfl⟩ | exact ⟨⟨rfl, (fun h => by cases h), (fun h => by cases h),
    fun _ => (fun h => by cases h)⟩, rfl⟩

theorem writeStep_connOk {choice : SendChoice} (hc : σ.Control) (hi : σ.ConnOk)
    (h : σ.writeStep choice = some τ) : τ.ConnOk := by
  have same (s : SockId) : SockSteady (σ.socks s) (σ.socks s) := .of_eq rfl rfl
  cases writeStep_cases h with
  | dequeue s =>
    unfold writeDequeue
    split <;> exact hi.keep hc rfl rfl rfl id same
  | send s | arm s => exact hi.keep hc rfl rfl rfl id (SockSteady.update (.of_eq rfl rfl))
  | fail s =>
    by_cases hs : σ.peer.links.peerSocket = some s
    · obtain ⟨hconn, haddressing⟩ := wgTcpFailExactSocket_conn hi hs
      exact hi.section hc hs hconn (Peer.wgTcpFailExactSocket_outside _ _ _).links rfl
        haddressing same
    · have hnone : σ.peer.wgTcpFailExactSocket σ.device s = σ.peer := by
        simp [Peer.wgTcpFailExactSocket, hs]
      unfold writeFail
      rw [hnone]
      exact hi.keep hc rfl rfl rfl id same
  | finish captured =>
    unfold writeFinish Peer.finishWriter
    split <;> exact hi.keep hc rfl rfl rfl id same
  | start | requeue => exact hi.keep hc rfl rfl rfl id same

theorem requestStep_connOk {queueLimit : Nat} {r : Request} (hc : σ.Control) (hi : σ.ConnOk)
    (h : σ.requestStep queueLimit r = some τ) : τ.ConnOk := by
  cases requestStep_cases h with
  | accept frame s =>
    rw [Peer.wgTcpScheduleWriteLocked_eq]
    exact hi.keep hc rfl rfl rfl id (SockSteady.update (.of_eq rfl rfl))
  | aside aside => exact hi.aside hc aside

/-- The lock is taken by a thread that does not dial yet. -/
theorem ConnOk.acquire (hi : σ.ConnOk) (hfree : σ.lock = none)
    (hlock : τ.lock = some k) (hentry : k.entry = true) (hpeer : τ.peer = σ.peer)
    (hsocks : τ.socks = σ.socks) : τ.ConnOk := by
  have hdialing : k.dialing = false := by
    cases k with
    | drain sockets plan cancel => cases plan <;> first | rfl | cases hentry
    | _ => first | rfl | cases hentry
  have hopening : k.opening = false := by cases k <;> first | rfl | cases hentry
  have hopens : k.opens = none := by cases k <;> first | rfl | cases hentry
  have hconnecting := hi.connecting
  rw [hfree] at hconnecting
  refine ⟨?_, ?_, ?_, ?_, ?_, ?_, ?_⟩
  · rw [hpeer, hlock, hconnecting]
    exact hdialing.symm
  · rw [hsocks]
    exact hi.fresh
  · simp [hlock, hopens]
  · simp [hlock, hopening]
  · rw [hpeer]
    simpa only [Doomed, hpeer, hsocks] using hi.established
  · rw [hpeer]
    exact hi.dialed
  · rw [hpeer]
    exact hi.endpoint

theorem threadStep_connOk {choice : Choice} {t : Thread} (hc : σ.Configured) (hi : σ.ConnOk)
    (h : σ.threadStep choice t = some τ) : τ.ConnOk := by
  have same (s : SockId) : SockSteady (σ.socks s) (σ.socks s) := .of_eq rfl rfl
  cases threadStep_cases hc.control h with
  | aside aside => exact hi.aside hc.control aside
  | dead temp => exact absurd (hc.tempPeer.symm.trans temp) (by simp)
  | acquire k entry free lock device peer socks =>
    exact hi.acquire free lock entry peer socks
  | promotionClaim s connectionId stage pc =>
    refine hi.keep hc.control rfl rfl rfl id (SockSteady.update ?_)
    refine ⟨fun h => (by rcases h with h | h <;> cases h), ?_, ?_⟩
    all_goals
      intro howned
      exact absurd (stage.symm.trans howned) (fun h => by cases h)
  | stopBegin =>
    rw [hc.tempPeer]
    exact hi.keep hc.control rfl rfl rfl id same
  | stopFinish stopping pc =>
    -- A stop gives the lock back before it ends, and only refused connects come after it.
    have hpassing (p : Holder → Bool) (hp : ∀ k, k.passing = true → p k = false) :
        σ.lock.any p = false := by
      cases hl : σ.lock with
      | none => rfl
      | some k =>
        exact hp k ((hc.control.stop.stopped hc.tempPeer (by simp [pc, StopPc.rank])).2 k hl)
    refine ⟨?_, hi.fresh, hi.starting, fun _ => rfl, (fun h => by cases h), (fun h => by cases h),
      (fun h => by cases h)⟩
    exact (hpassing _ fun k hk => Holder.passing_dialing hk).symm

/-! ## The holder of the lock -/

theorem ConnOk.fresh_update (hi : σ.ConnOk) {s : SockId} {sk : Sock}
    (h : sk.stage = .unused ∨ sk.stage = .dialing → sk.skState = .close) (t : SockId) :
    (Function.update σ.socks s sk t).stage = .unused ∨
      (Function.update σ.socks s sk t).stage = .dialing →
    (Function.update σ.socks s sk t).skState = .close := by
  by_cases ht : t = s
  · subst ht
    simpa using h
  · simpa [ht] using hi.fresh t

/-- The holder goes on and leaves the connection flags alone. -/
theorem ConnOk.goes (hi : σ.ConnOk) (hc : σ.Control) (hl : σ.lock = some h)
    (hconn : τ.peer.conn = σ.peer.conn) (hlinks : τ.peer.links = σ.peer.links)
    (hendpoint : τ.peer.addressing.peerEndpointSet = σ.peer.addressing.peerEndpointSet)
    (hsocks : ∀ s, SockSteady (σ.socks s) (τ.socks s))
    (hdialing : τ.lock.any Holder.dialing = h.dialing)
    (hopening : τ.lock.any Holder.opening = true → h.opening = true)
    (hopens : ∀ s, τ.lock.bind Holder.opens = some s → h.opens = some s) : τ.ConnOk where
  connecting := by
    rw [hconn, hi.connecting, hl, hdialing]
    rfl
  fresh := fun s hs => ((hsocks s).fresh hs).2.trans (hi.fresh s ((hsocks s).fresh hs).1)
  starting := fun s hs =>
    (hsocks s).close (owned_of_opens hc hl (hopens s hs))
      (hi.starting s (by rw [hl]; exact hopens s hs))
  unestablished := by
    rw [hconn]
    exact fun h => hi.unestablished (by rw [hl]; exact hopening h)
  established := by
    rw [hconn, hlinks]
    intro hest
    obtain ⟨hpending, s, hs, hconnected⟩ := hi.established hest
    refine ⟨hpending, s, hs, hconnected.imp_right (.imp_right fun hdoomed => ?_)⟩
    exact ⟨hconn ▸ hdoomed.1, (hsocks s).closed (owned_of_active hc.custody hs) hdoomed.2⟩
  dialed := by
    rw [hconn, hlinks]
    exact hi.dialed
  endpoint := by
    rw [hconn, hendpoint]
    exact hi.endpoint

theorem LockedMove.connOk (hm : σ.LockedMove h τ) (hl : σ.lock = some h) (hc : σ.Configured)
    (hi : σ.ConnOk) : τ.ConnOk := by
  obtain ⟨hok, hin⟩ := hc.control.holder h hl
  have same (s : SockId) : SockSteady (σ.socks s) (σ.socks s) := .of_eq rfl rfl
  have hany (p : Holder → Bool) : σ.lock.any p = p h := by rw [hl]; rfl
  cases hm with
  | pass passes =>
    refine hi.goes hc.control hl rfl rfl rfl same ?_ ?_ ?_
    all_goals cases passes <;> first | rfl | exact id | (intro _ h; cases h) | (intro h; cases h)
  | dial caller live endpoint free links =>
    exact ⟨rfl, hi.fresh, (fun _ h => by cases h), fun _ => rfl, (fun h => by cases h),
      fun _ => .inl rfl, fun _ => endpoint⟩
  | create caller s unused =>
    refine hi.goes hc.control hl rfl rfl rfl (SockSteady.update ⟨?_, ?_, ?_⟩) rfl (fun _ => rfl)
      (fun _ h => by cases h)
    · exact fun _ => ⟨.inl unused, rfl⟩
    · exact fun _ => id
    · exact fun _ => id
  | connectPublish caller s live =>
    have hest := hi.unestablished (hany _)
    refine ⟨hi.connecting.trans (hany _), hi.fresh_update fun h => ?_, fun t ht => ?_,
      fun _ => hest,
      fun h => ?_, fun _ => .inr rfl, hi.endpoint⟩
    · rcases h with h | h <;> cases h
    · obtain rfl : s = t := Option.some.inj ht
      simpa using hi.fresh s (.inr hok.2)
    · exact absurd (hest.symm.trans h) (by simp)
  | setup setsUp =>
    cases setsUp with
    | connect caller s =>
      exact hi.goes hc.control hl rfl rfl rfl (SockSteady.update (.of_eq rfl rfl)) rfl
        (fun _ => rfl) fun _ => id
    | promote s =>
      exact hi.goes hc.control hl rfl rfl rfl (SockSteady.update (.of_eq rfl rfl)) rfl
        (fun h => by cases h) (fun _ h => by cases h)
    | install s => simp [Inside, Holder.thread, hc.tempPeer] at hin
  | start caller s callback =>
    have hest := hi.unestablished (hany _)
    have howned := owned_of_active hc.control.custody (s := s) (by rw [hok.1]; rfl)
    refine ⟨hi.connecting.trans (hany _), hi.fresh_update fun h => ?_, (fun _ h => by cases h),
      (fun h => by cases h), fun h => ?_,
      hi.dialed, hi.endpoint⟩
    · simp [howned] at h
    · exact absurd (hest.symm.trans h) (by simp)
  | connectFinish caller s first p finish =>
    obtain ⟨-, hdialing, conn, rfl, rfl⟩ := Peer.connectFinish_some hok.1 finish
    have hactive : σ.peer.links.peerSocket = some s := by rw [hok.1]; rfl
    have houtbound : σ.peer.links.outboundSocket.isSome = true := by rw [hok.1]; rfl
    refine ⟨?_, hi.fresh, (fun _ h => by cases h), (fun h => by cases h), ?_,
      fun _ => .inr houtbound, ?_⟩
    all_goals
      dsimp only [hold_peer, setPeer_peer]
      split
    · rfl
    · rfl
    · exact fun _ => ⟨rfl, s, hactive, .inr (.inl rfl)⟩
    · intro hest
      obtain ⟨hpending, hconnected⟩ := (hi.connStep hactive).established hest
      refine ⟨hpending, s, hactive, ?_⟩
      rcases hconnected with h | h | ⟨-, hclosed⟩
      · exact .inl h
      · exact .inr (.inl h)
      · simp [TcpState.not_closed_of_dialing hdialing] at hclosed
    · intro h
      cases h
    · exact hi.endpoint
  | unwindClaim caller s links =>
    exact hi.goes hc.control hl rfl rfl rfl same rfl (fun h => by cases h) (fun _ h => by cases h)
  | unwindFinish caller =>
    split <;> exact ⟨rfl, hi.fresh, (fun _ h => by cases h), fun _ => rfl, (fun h => by cases h),
      (fun h => by cases h), (fun h => by cases h)⟩
  | unwindQueue caller =>
    unfold Peer.unwindQueue
    split <;> exact hi.goes hc.control hl rfl rfl rfl same rfl (fun h => by cases h)
      (fun _ h => by cases h)
  | connectReturn caller =>
    exact hi.goes hc.control hl (by simp) (by simp) (by simp) (by simpa using same) rfl
      (fun h => by cases h) (fun _ h => by cases h)
  | rearm rearms =>
    rw [Peer.rearm_eq]
    refine hi.goes hc.control hl rfl rfl rfl same ?_ ?_ ?_
    all_goals cases rearms <;> first | rfl | (intro _ h; cases h) | (intro h; cases h)
  | promoteCheck s connectionId =>
    exact hi.goes hc.control hl rfl rfl rfl same rfl (fun h => by cases h) (fun _ h => by cases h)
  | promotePublish s =>
    refine ⟨rfl, hi.fresh_update fun h => ?_, (fun _ h => by cases h), (fun h => by cases h),
      fun _ => ⟨rfl, s, rfl, .inl rfl⟩, (fun h => by cases h),
      (fun h => by cases h)⟩
    rcases h with h | h <;> cases h
  | bootstrapTake k next =>
    refine hi.goes hc.control hl rfl rfl rfl same ?_ ?_ ?_
    all_goals
      rcases next with rfl | ⟨s, rfl⟩ <;>
        first | rfl | (intro _ h; cases h) | (intro h; cases h)
  | clearFlags plan =>
    cases plan with
    | promote new i o =>
      cases i <;> cases o <;> exact hi.goes hc.control hl rfl rfl rfl same rfl (fun h => by cases h)
        (fun _ h => by cases h)
    | destroy s => exact absurd (hc.tempPeer.symm.trans hok.1.2) (by simp)
    | _ =>
      exact hi.goes hc.control hl rfl rfl rfl same rfl (fun h => by cases h) (fun _ h => by cases h)
  | reset s owner callback =>
    exact hi.goes hc.control hl rfl rfl rfl (SockSteady.update (.of_eq rfl rfl)) rfl
      (fun h => by cases h) (fun _ h => by cases h)
  | release s owner =>
    exact ⟨hi.connecting.trans (hany _), hi.fresh, (fun _ h => by cases h), fun _ => rfl,
      (fun h => by cases h), (fun h => by cases h), (fun h => by cases h)⟩
  | shutdown s owner =>
    have hsocks := @SockSteady.update σ.socks s { σ.socks s with skState := .close }
      ⟨fun h => ⟨h, (hi.fresh s h).symm⟩, fun _ _ => rfl, fun _ _ => rfl⟩
    cases owner with
    | promoteInbound new old =>
      obtain ⟨-, rfl, -⟩ := hok
      exact hi.goes hc.control hl rfl rfl rfl hsocks rfl (fun h => by cases h)
        (fun _ h => by cases h)
    | stopOutbound other =>
      obtain ⟨-, rfl⟩ := hok
      exact hi.goes hc.control hl rfl rfl rfl hsocks rfl (fun h => by cases h)
        (fun _ h => by cases h)
    | _ =>
      exact hi.goes hc.control hl rfl rfl rfl hsocks rfl (fun h => by cases h)
        (fun _ h => by cases h)
  | stopPurge s inbound links =>
    cases inbound <;> exact hi.goes hc.control hl rfl rfl rfl same rfl (fun h => by cases h)
      (fun _ h => by cases h)
  | installData | installFinish | installFail | handoverNothing | handoverClaim | handoverReset
  | handoverDetach => simp [Inside, Holder.thread, hc.tempPeer] at hin
  | destroyed => exact absurd (hc.tempPeer.symm.trans hok.2) (by simp)
  | _ =>
    exact hi.goes hc.control hl rfl rfl rfl same rfl (fun h => by cases h) (fun _ h => by cases h)

/-! ## Every step -/

theorem lifecycleStep_connOk {l : Lifecycle} (hc : σ.Configured) (hi : σ.ConnOk)
    (h : σ.lifecycleStep l = some τ) : τ.ConnOk := by
  have same (s : SockId) : SockSteady (σ.socks s) (σ.socks s) := .of_eq rfl rfl
  cases lifecycleStep_cases hc.control h with
  | deviceDown => exact hi.keep hc.control rfl rfl rfl id same
  | deviceUp =>
    unfold Peer.wgOpen
    split <;> exact hi.keep hc.control rfl rfl rfl id same
  | removePeer => exact hi.keep hc.control rfl rfl rfl id same
  | install s connectionId stage temp => exact absurd (hc.tempPeer.symm.trans temp) (by simp)
  | handover s free => exact hi.acquire free rfl rfl rfl rfl

theorem step_connOk {A : SkbAllocator} {queueLimit : Nat} {a : Action} (hc : σ.Configured)
    (hi : σ.ConnOk) (h : σ.step A queueLimit a = some τ) : τ.ConnOk := by
  have hcontrol := hc.control
  cases a with
  | kernel e =>
    obtain ⟨sk, hsk, rfl⟩ := Option.map_eq_some_iff.mp h
    exact hi.keep hcontrol rfl rfl rfl id (SockSteady.update (kernel_sockSteady (hi.fresh _) hsk))
  | callback s => exact callbackStep_connOk hc hi h
  | read choice => exact readStep_connOk hcontrol hi h
  | write choice => exact writeStep_connOk hcontrol hi h
  | request r => exact requestStep_connOk hcontrol hi h
  | thread t choice => exact threadStep_connOk hc hi h
  | locked choice =>
    obtain ⟨k, hk, h⟩ := Option.bind_eq_some_iff.mp h
    exact (lockedStep_cases hcontrol hk h).connOk hk hc hi
  | lifecycle l => exact lifecycleStep_connOk hc hi h

end State

end WgTcp
