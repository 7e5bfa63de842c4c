import WgTcp.Peer.Claims

/-!
# Flags and work

Next to every work item of a peer stands a flag that says it was queued, and
whoever finds the flag set does not queue it again. So a set flag has to mean
that the work is pending or running, or that somebody is about to queue it or
to take the flag back: a thread under `tcp_socket_lock`, or a state callback
that holds `sk_callback_lock`.
-/

namespace WgTcp

/-! ## Sections that only arm -/

/-- The flag is set together with the work, and no work is taken away. -/
def WorkItem.Arms (w w' : WorkItem) : Prop :=
  (w'.scheduled = true → w.scheduled = true ∨ w'.work = true) ∧ (w.work = true → w'.work = true)

def Removal.Arms (r r' : Removal) : Prop :=
  (r'.scheduled = true → r.scheduled = true ∨ r'.work = true) ∧ (r.work = true → r'.work = true)

theorem WorkItem.Arms.refl (w : WorkItem) : w.Arms w := ⟨.inl, id⟩

theorem Removal.Arms.refl (r : Removal) : r.Arms r := ⟨.inl, id⟩

theorem WorkItem.arms_queued (w : WorkItem) : w.Arms .queued := ⟨fun _ => .inr rfl, fun _ => rfl⟩

theorem Removal.arms_claim (r : Removal) (s : Option SockId) : r.Arms (.claim s) :=
  ⟨fun _ => .inr rfl, fun _ => rfl⟩

namespace Peer

@[mk_iff] structure Queues (p q : Peer) : Prop where
  retry : p.retry.Arms q.retry
  outbound : p.outboundRemove.Arms q.outboundRemove
  inbound : p.inboundRemove.Arms q.inboundRemove
  /-- After a stop has begun, nothing is scheduled any more. -/
  stopped : p.tcpStopping = true →
    (q.retry.scheduled = true → p.retry.scheduled = true) ∧
      (q.outboundRemove.scheduled = true → p.outboundRemove.scheduled = true)

@[mk_iff] structure Arms (p q : Peer) : Prop extends Queues p q where
  read : p.read.Arms q.read
  write : p.write.Arms q.write

variable (d : Device) (p : Peer)

theorem Queues.of_eq {p q : Peer} (hretry : q.retry = p.retry)
    (houtbound : q.outboundRemove = p.outboundRemove)
    (hinbound : q.inboundRemove = p.inboundRemove) : p.Queues q := by
  constructor
  · rw [hretry]
    exact .refl _
  · rw [houtbound]
    exact .refl _
  · rw [hinbound]
    exact .refl _
  · rw [hretry, houtbound]
    exact fun _ => ⟨id, id⟩

theorem Queues.removal {p q : Peer} (h : p.Queues q) (inbound : Bool) :
    (p.removalOf inbound).Arms (q.removalOf inbound) := by
  cases inbound with
  | false => exact h.outbound
  | true => exact h.inbound

theorem Keeps.live {d : Device} {p q : Peer} (hp : p.Keeps d q) (h : q.live d = true) :
    p.live d = true := by
  have hdead := hp.isDead
  have hstop := hp.tcpStopping
  simp_all [Peer.live]

theorem Queues.refl : p.Queues p := .of_eq rfl rfl rfl

theorem Arms.refl : p.Arms p := ⟨.refl p, .refl _, .refl _⟩

attribute [local simp] arms_iff queues_iff WorkItem.arms_queued Removal.arms_claim
  WorkItem.Arms.refl
  Removal.Arms.refl live

theorem wgTcpScheduleWriteLocked_arms : p.Arms (wgTcpScheduleWriteLocked d p) := by
  unfold wgTcpScheduleWriteLocked
  split <;> simp

theorem requestDial_arms : p.Arms (p.requestDial d) := by
  unfold requestDial
  split <;> simp_all

theorem wgTcpFailExactSocket_arms (s : SockId) : p.Arms (p.wgTcpFailExactSocket d s) := by
  unfold wgTcpFailExactSocket
  repeat' split
  all_goals simp_all

theorem wgTcpDataReady_arms : p.Arms (p.wgTcpDataReady d) := by
  unfold wgTcpDataReady
  split <;> simp

theorem wgTcpWriteSpace_arms : p.Arms (p.wgTcpWriteSpace d) := by
  unfold wgTcpWriteSpace
  split
  · exact .refl p
  · exact wgTcpScheduleWriteLocked_arms d p

theorem wgTcpQueueCarrierBootstrap_arms (s : SockId) : p.Arms (p.wgTcpQueueCarrierBootstrap s) := by
  unfold wgTcpQueueCarrierBootstrap
  split <;> simp

theorem queueRemoval_arms (s : SockId) (inbound : Bool) : p.Arms (p.queueRemoval d s inbound) := by
  unfold queueRemoval
  repeat' split
  all_goals simp_all [Removal.Arms]

theorem reconnect_arms : p.Arms (p.wgTcpPeerRequestReconnectAfter d) := by
  unfold wgTcpPeerRequestReconnectAfter
  repeat' split
  all_goals simp_all

theorem beginRetry_removal (inbound : Bool) :
    (p.removalOf inbound).Arms ((p.takeRetryWork.beginRetry d).2.removalOf inbound) := by
  unfold beginRetry takeRetryWork
  repeat' split
  all_goals cases inbound <;> simp [removalOf]

theorem beginRetry_retry : (p.takeRetryWork.beginRetry d).2.retry = .idle := by
  unfold beginRetry takeRetryWork
  repeat' split
  all_goals rfl

theorem scheduleRetry_arms : p.Arms p.scheduleRetry := by
  unfold scheduleRetry
  split <;> simp_all

theorem requestPromotion_arms (connectionId : Nat) : p.Arms (p.requestPromotion connectionId) := by
  unfold requestPromotion
  split <;> simp

theorem stateChangeSection_stream (s : SockId) (inbound : Bool) (skState : TcpState) :
    (p.stateChangeSection s inbound skState).1.read = p.read ∧
      (p.stateChangeSection s inbound skState).1.write = p.write := by
  unfold stateChangeSection stateEstablished wgTcpPublishOutboundEstablishedLocked
    stateClosedInbound stateClosedOutbound
  repeat' split
  all_goals exact ⟨rfl, rfl⟩

theorem connectFinish_arms {d : Device} {p q : Peer} {s : SockId} {skState : TcpState}
    {first : Bool} (hlinks : p.links = .on s false)
    (h : p.connectFinish d s skState = some (first, q)) : p.Arms q := by
  obtain ⟨hlive, -, conn, -, rfl⟩ := connectFinish_some hlinks h
  have hstop : p.tcpStopping = false := by simp_all
  refine ⟨⟨?_, ?_, .refl _, by simp [hstop]⟩, .refl _, .refl _⟩
  all_goals
    dsimp only
    split <;> simp

theorem unwindQueue_eq : p.unwindQueue = { p with
    outboundRemove := { p.outboundRemove with
      work := p.outboundRemove.work ||
        (!p.tcpStopping && p.tcpReconnectRequested && p.outboundRemove.scheduled) } } := by
  unfold unwindQueue
  split_ifs with h
  · simp [h]
  · simp [Bool.not_eq_true _ ▸ h]

theorem rearm_arms (receiveQueue : Bytes) :
    p.Arms (p.wgTcpRearmSurvivingStreamLocked d receiveQueue) := by
  rw [rearm_eq]
  refine ⟨⟨.refl _, .refl _, .refl _, fun _ => ⟨id, id⟩⟩, ?_, ?_⟩
  all_goals
    dsimp only
    split
    · exact WorkItem.arms_queued _
    · exact .refl _

end Peer

/-! ## The stream workers -/

/-- The stream workers are cancelled; their flags are cleared behind both cancellations. -/
def Holder.readCancelled : Holder → Bool
  | .cancelWrite _ | .clearFlags _ => true
  | _ => false

def Holder.writeCancelled : Holder → Bool
  | .clearFlags _ => true
  | _ => false

namespace State

variable {σ τ : State} {h k : Holder}

structure StreamBacked (σ : State) : Prop where
  read : σ.peer.read.scheduled = true →
    σ.peer.read.work = true ∨ σ.reader ≠ .idle ∨ σ.lock.any Holder.readCancelled = true
  write : σ.peer.write.scheduled = true →
    σ.peer.write.work = true ∨ σ.writer ≠ .idle ∨ σ.lock.any Holder.writeCancelled = true

theorem streamBacked_init (tempPeer : Bool) (addressing : Addressing) :
    (State.init tempPeer addressing).StreamBacked :=
  ⟨(fun h => by cases h), (fun h => by cases h)⟩

/-- A step that only arms the stream workers. -/
theorem StreamBacked.arms (hi : σ.StreamBacked) (hread : σ.peer.read.Arms τ.peer.read)
    (hwrite : σ.peer.write.Arms τ.peer.write) (hreader : τ.reader = σ.reader)
    (hwriter : τ.writer = σ.writer)
    (hcancelled : σ.lock.any Holder.readCancelled = true → τ.lock.any Holder.readCancelled = true)
    (hcancelled' : σ.lock.any Holder.writeCancelled = true →
      τ.lock.any Holder.writeCancelled = true) : τ.StreamBacked where
  read := by
    rw [hreader]
    intro hs
    rcases hread.1 hs with hs | hw
    · exact (hi.read hs).imp hread.2 (Or.imp_right hcancelled)
    · exact .inl hw
  write := by
    rw [hwriter]
    intro hs
    rcases hwrite.1 hs with hs | hw
    · exact (hi.write hs).imp hwrite.2 (Or.imp_right hcancelled')
    · exact .inl hw

/-- A step that has nothing to do with the stream workers. -/
theorem StreamBacked.keep (hi : σ.StreamBacked) (hread : τ.peer.read = σ.peer.read)
    (hwrite : τ.peer.write = σ.peer.write) (hreader : τ.reader = σ.reader)
    (hwriter : τ.writer = σ.writer)
    (hcancelled : σ.lock.any Holder.readCancelled = true → τ.lock.any Holder.readCancelled = true)
    (hcancelled' : σ.lock.any Holder.writeCancelled = true →
      τ.lock.any Holder.writeCancelled = true) : τ.StreamBacked :=
  hi.arms (hread ▸ .refl _) (hwrite ▸ .refl _) hreader hwriter hcancelled hcancelled'

theorem Aside.streamBacked (ha : σ.Aside τ) (hi : σ.StreamBacked) : τ.StreamBacked :=
  hi.keep ha.peer.read ha.peer.write ha.reader ha.writer (by rw [ha.lock]; exact id)
    (by rw [ha.lock]; exact id)

theorem CallbackMove.streamBacked {s : SockId} (hm : σ.CallbackMove s τ) (hi : σ.StreamBacked) :
    τ.StreamBacked := by
  cases hm with
  | dataReady =>
    have ha := Peer.wgTcpDataReady_arms σ.device σ.peer
    exact hi.arms ha.read ha.write rfl rfl id id
  | writeSpace =>
    have ha := Peer.wgTcpWriteSpace_arms σ.device σ.peer
    exact hi.arms ha.read ha.write rfl rfl id id
  | stateSection inbound =>
    obtain ⟨hread, hwrite⟩ := Peer.stateChangeSection_stream σ.peer s inbound (σ.socks s).skState
    exact hi.keep hread hwrite rfl rfl id id
  | tailBootstrap =>
    have ha := Peer.wgTcpQueueCarrierBootstrap_aside σ.device σ.peer s
    exact hi.keep ha.read ha.write rfl rfl id id
  | tailRemoval inbound =>
    have ha := Peer.queueRemoval_aside σ.device σ.peer s inbound
    exact hi.keep ha.read ha.write rfl rfl id id
  | _ => exact hi.keep rfl rfl rfl rfl id id

theorem nextReadPc_ne_idle (s : SockId) (n : Nat) (flow : Flow) : nextReadPc s n flow ≠ .idle := by
  cases flow with
  | stop =>
    intro h
    cases h
  | next =>
    unfold nextReadPc
    rcases nextReaderPc_next n with h | h <;> rw [h] <;> intro h <;> cases h

theorem readStep_streamBacked {A : SkbAllocator} {choice : ReadChoice} (hi : σ.StreamBacked)
    (h : σ.readStep A choice = some τ) : τ.StreamBacked := by
  cases readStep_cases h with
  | start =>
    refine ⟨fun _ => .inr (.inl ?_), hi.write⟩
    unfold readStart
    split <;> intro h <;> cases h
  | pass s n => exact ⟨fun _ => .inr (.inl (nextReadPc_ne_idle _ _ _)), hi.write⟩
  | finish captured budget =>
    unfold readFinish Peer.finishReader
    split
    · exact ⟨fun _ => .inl rfl, hi.write⟩
    · exact ⟨(fun h => by cases h), hi.write⟩

theorem SendResult.next_ne_idle (s : SockId) (frame : Bytes) (r : SendResult) :
    r.next s frame ≠ some .idle := by
  cases r with
  | sent n =>
    simp only [SendResult.next]
    repeat' split
    all_goals simp
  | eagain | failed => simp [SendResult.next]

theorem writeStep_streamBacked {choice : SendChoice} (hi : σ.StreamBacked)
    (h : σ.writeStep choice = some τ) : τ.StreamBacked := by
  cases writeStep_cases h with
  | start =>
    refine ⟨hi.read, fun _ => .inr (.inl ?_)⟩
    unfold writeStart
    split <;> intro h <;> cases h
  | dequeue s =>
    unfold writeDequeue
    split <;> exact ⟨hi.read, fun _ => .inr (.inl (fun h => by cases h))⟩
  | send s frame pc hpc callback next =>
    refine ⟨hi.read, fun _ => .inr (.inl ?_)⟩
    rintro rfl
    exact SendResult.next_ne_idle _ _ _ next
  | requeue | arm => exact ⟨hi.read, fun _ => .inr (.inl (fun h => by cases h))⟩
  | fail s =>
    have ha := Peer.wgTcpFailExactSocket_arms σ.device σ.peer s
    refine ⟨fun hs => ?_, fun _ => .inr (.inl (fun h => by cases h))⟩
    rcases ha.read.1 hs with hs | hw
    · exact (hi.read hs).imp_left ha.read.2
    · exact .inl hw
  | finish captured =>
    unfold writeFinish Peer.finishWriter
    split
    · exact ⟨hi.read, fun _ => .inl rfl⟩
    · exact ⟨hi.read, (fun h => by cases h)⟩

theorem requestStep_streamBacked {queueLimit : Nat} {r : Request} (hi : σ.StreamBacked)
    (h : σ.requestStep queueLimit r = some τ) : τ.StreamBacked := by
  cases requestStep_cases h with
  | accept frame s =>
    have ha := Peer.wgTcpScheduleWriteLocked_arms σ.device
      { σ.peer with sendQueue := σ.peer.sendQueue ++ [frame] }
    exact hi.arms ha.read ha.write rfl rfl id id
  | aside aside => exact aside.streamBacked hi

theorem threadStep_streamBacked {choice : Choice} {t : Thread} (hc : σ.Control)
    (hi : σ.StreamBacked) (h : σ.threadStep choice t = some τ) : τ.StreamBacked := by
  cases threadStep_cases hc h with
  | aside aside => exact aside.streamBacked hi
  | acquire k entry free lock device peer socks reader writer =>
    refine hi.keep (by rw [peer]) (by rw [peer]) reader writer ?_ ?_ <;> simp [free]
  | stopBegin =>
    dsimp only
    split <;> exact hi.keep rfl rfl rfl rfl id id
  | dead | promotionClaim | stopFinish => exact hi.keep rfl rfl rfl rfl id id

/-- The holder goes on without touching the stream workers. -/
theorem StreamBacked.goes (hi : σ.StreamBacked) (hl : σ.lock = some h)
    (hread : τ.peer.read = σ.peer.read) (hwrite : τ.peer.write = σ.peer.write)
    (hreader : τ.reader = σ.reader) (hwriter : τ.writer = σ.writer)
    (hcancelled : h.readCancelled = false) : τ.StreamBacked := by
  have hcancelled' : h.writeCancelled = false := by
    cases h <;> first | rfl | cases hcancelled
  refine hi.keep hread hwrite hreader hwriter ?_ ?_
  · simp [hl, hcancelled]
  · simp [hl, hcancelled']

theorem LockedMove.streamBacked (hm : σ.LockedMove h τ) (hl : σ.lock = some h) (hc : σ.Control)
    (hi : σ.StreamBacked) : τ.StreamBacked := by
  cases hm with
  | pass passes => exact hi.goes hl rfl rfl rfl rfl (by cases passes <;> rfl)
  | setup setsUp => exact hi.goes hl rfl rfl rfl rfl (by cases setsUp <;> rfl)
  | connectFinish caller s first p finish =>
    obtain ⟨-, -, conn, -, rfl⟩ := Peer.connectFinish_some (hc.holder _ hl).1.1 finish
    exact hi.goes hl rfl rfl rfl rfl rfl
  | unwindQueue =>
    unfold Peer.unwindQueue
    split <;> exact hi.goes hl rfl rfl rfl rfl rfl
  | connectReturn => refine hi.goes hl ?_ ?_ ?_ ?_ rfl <;> simp
  | rearm rearms =>
    have ha := Peer.rearm_arms σ.device σ.peer σ.activeQueue
    refine hi.arms ha.read ha.write rfl rfl ?_ ?_
    all_goals
      rw [hl]
      cases rearms <;> intro h <;> cases h
  | cancelRead plan idle =>
    refine ⟨fun _ => .inr (.inr rfl), fun hs => ?_⟩
    exact (hi.write hs).imp_right (Or.imp_right fun h => by simp [hl, Holder.writeCancelled] at h)
  | cancelWrite plan idle => exact ⟨fun _ => .inr (.inr rfl), fun _ => .inr (.inr rfl)⟩
  | clearFlags plan => cases plan <;> exact ⟨(fun h => by cases h), (fun h => by cases h)⟩
  | installData s =>
    have ha := Peer.wgTcpDataReady_arms σ.device σ.peer
    exact hi.arms ha.read ha.write rfl rfl (by rw [hl]; intro h; cases h)
      (by rw [hl]; intro h; cases h)
  | installFinish s =>
    unfold Peer.finishInit
    split <;> exact hi.goes hl rfl rfl rfl rfl rfl
  | _ => exact hi.goes hl rfl rfl rfl rfl rfl

theorem lifecycleStep_streamBacked {l : Lifecycle} (hc : σ.Control) (hi : σ.StreamBacked)
    (h : σ.lifecycleStep l = some τ) : τ.StreamBacked := by
  cases lifecycleStep_cases hc h with
  | deviceUp =>
    unfold Peer.wgOpen
    split <;> exact hi.keep rfl rfl rfl rfl id id
  | removePeer =>
    have hcleared (w : WorkItem) : (if w.scheduled then .idle else w).scheduled = false := by
      cases hw : w.scheduled <;> simp [hw, WorkItem.idle]
    refine ⟨fun hs => ?_, fun hs => ?_⟩
    · exact absurd ((hcleared σ.peer.read).symm.trans hs) (by simp)
    · exact absurd ((hcleared σ.peer.write).symm.trans hs) (by simp)
  | install s connectionId stage temp free => refine hi.keep rfl rfl rfl rfl ?_ ?_ <;> simp [free]
  | handover s free => refine hi.keep rfl rfl rfl rfl ?_ ?_ <;> simp [free]
  | deviceDown => exact hi.keep rfl rfl rfl rfl id id

theorem step_streamBacked {A : SkbAllocator} {queueLimit : Nat} {a : Action} (hc : σ.Control)
    (hi : σ.StreamBacked) (h : σ.step A queueLimit a = some τ) : τ.StreamBacked := by
  cases a with
  | kernel e =>
    obtain ⟨sk, -, rfl⟩ := Option.map_eq_some_iff.mp h
    exact hi.keep rfl rfl rfl rfl id id
  | callback s => exact (callbackStep_cases h).streamBacked hi
  | read choice => exact readStep_streamBacked hi h
  | write choice => exact writeStep_streamBacked hi h
  | request r => exact requestStep_streamBacked hi h
  | thread t choice => exact threadStep_streamBacked hc hi h
  | locked choice =>
    obtain ⟨k, hk, h⟩ := Option.bind_eq_some_iff.mp h
    exact (lockedStep_cases hc hk h).streamBacked hk hc hi
  | lifecycle l => exact lifecycleStep_streamBacked hc hi h

theorem Reaches.streamBacked {A : SkbAllocator} {queueLimit : Nat} {tempPeer : Bool}
    {addressing : Addressing} {as : List Action}
    (h : Reaches A queueLimit tempPeer addressing as σ) :
    σ.StreamBacked :=
  (Transition.run_invariant (I := fun σ => σ.Control ∧ σ.StreamBacked)
    (fun _ _ _ hi h => ⟨step_control hi.1 h, step_streamBacked hi.1 hi.2 h⟩)
    ⟨control_init tempPeer addressing, streamBacked_init tempPeer addressing⟩ h).2

end State

end WgTcp
