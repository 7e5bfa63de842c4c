import WgTcp.Peer.Ownership

/-!
# The holder of `tcp_socket_lock`

The state of one peer, configured or provisional, with the program counters of
everything that runs on it, and the steps of the thread that holds
`tcp_socket_lock`: dialing and its unwinding, the removal workers, promotion,
the bootstrap, stop, and the life of a provisional peer. `State.lock` is that
thread's program counter, so that at most one thread is ever between acquiring
the lock and releasing it.

Sections under `tcp_lock` are single steps. Installing and resetting callbacks
waits for a callback that holds `sk_callback_lock`, and `cancel_work_sync`
waits for its worker.
-/

namespace WgTcp

/-! ## Program counters -/

/-- The thread that called `wg_tcp_connect`. -/
inductive Caller where
  | retry
  | outbound
  | admin
deriving Repr, DecidableEq

/-- Who tears a socket down, with what is left to do afterwards. -/
inductive Owner where
  | unwind (caller : Caller)
  | outbound (retryNeeded : Bool)
  | inbound
  | promoteInbound (new : SockId) (oldOutbound : Option SockId)
  | promoteOutbound (new : SockId)
  | rollback
  | stopOutbound (inbound : Option SockId)
  | stopInbound (failed : Bool)
  | destroy
deriving Repr, DecidableEq

/-- What follows once the stream workers are cancelled. -/
inductive Plan where
  | detach (s : SockId) (owner : Owner)
  | promote (new : SockId) (oldInbound oldOutbound : Option SockId)
  | stop (outbound inbound : Option SockId)
  | destroy (s : Option SockId)
  | handover (s : SockId)
deriving Repr, DecidableEq

/-- What `wg_tcp_outbound_remove_worker` knows when it gives the lock back. -/
structure OutboundPost where
  retryNeeded : Bool
  reconnect : Bool
  stopping : Bool
  reclaim : Bool
  failed : Bool
deriving Repr, DecidableEq

/-- The holder of `tcp_socket_lock`, by what it does next. -/
inductive Holder where
  | connectGate (caller : Caller)
  | connectCreate (caller : Caller)
  | connectPublish (caller : Caller) (s : SockId)
  | connectSetup (caller : Caller) (s : SockId)
  | connectStart (caller : Caller) (s : SockId)
  | connectFinish (caller : Caller) (s : SockId)
  | unwind (caller : Caller) (s : Option SockId)
  | unwindFinish (caller : Caller)
  | unwindAbort (caller : Caller)
  | unwindQueue (caller : Caller)
  | connectReturn (caller : Caller) (failed : Bool) (greet : Option SockId)
  | outboundView (retryNeeded : Bool)
  | outboundFinish (retryNeeded reclaim failed : Bool)
  | outboundRearm (post : OutboundPost)
  | outboundUnlock (post : OutboundPost)
  | inboundView
  | inboundFinish (failed : Bool)
  | inboundRearm
  | inboundUnlock
  | promoteCheck (s : SockId) (connectionId : Nat)
  | promoteDetach (s : SockId)
  | promoteClaim (s : SockId)
  | promotePublish (s : SockId)
  | promoteSetup (s : SockId)
  | promoteForget (s : SockId)
  | promoteRearm
  | promoteUnlock
  | bootstrapTake
  | bootstrapGreet (s : SockId)
  | bootstrapUnlock
  | stopReclaim
  | stopPurge (outbound inbound : Option SockId)
  | stopUnlock (failed : Bool)
  | installSetup (s : SockId)
  | installList (s : SockId)
  | installData (s : SockId)
  | installFinish (s : SockId)
  | installFail
  | destroyed (failed : Bool)
  | handoverClaim (s : SockId)
  | handoverReset (s : SockId)
  | handoverDetach
  | drain (sockets : List SockId) (plan : Plan) (cancel : Bool)
  | cancelRead (plan : Plan)
  | cancelWrite (plan : Plan)
  | clearFlags (plan : Plan)
  | reset (s : SockId) (owner : Owner)
  | release (s : SockId) (owner : Owner)
  | purge (s : SockId) (owner : Owner)
  | shutdown (s : SockId) (owner : Owner)
deriving Repr, DecidableEq

inductive ReadPc where
  | idle
  | loop (s : SockId) (packetsProcessed : Nat)
  | leave (captured : Option SockId) (budgetExhausted : Bool)
deriving Repr, DecidableEq

inductive WritePc where
  | idle
  | dequeue (s : SockId)
  | send (s : SockId) (frame : Bytes)
  /-- Put the unsent rest of a frame back at the head of the queue. -/
  | requeue (s : SockId) (rest : Bytes)
  | arm (s : SockId)
  | fail (s : SockId)
  | leave (captured : Option SockId)
deriving Repr, DecidableEq

/-- A call of `wg_tcp_connect` outside the lock. -/
inductive DialPc where
  | wait
  | inside
  /-- The call succeeded and its carrier is to be greeted. -/
  | greet (s : SockId)
  | failed
deriving Repr, DecidableEq

inductive OutboundPc where
  | idle
  | cancelRetry (retryNeeded : Bool)
  | wait (retryNeeded : Bool)
  | inside
  | post (post : OutboundPost)
  | dial (pc : DialPc)
deriving Repr, DecidableEq

/-- A thread that only waits for the lock and works under it. -/
inductive LockPc where
  | idle
  | wait
  | inside
deriving Repr, DecidableEq

inductive PromotionPc where
  | idle
  | take
  | claim (connectionId : Nat)
  | wait (s : SockId) (connectionId : Nat)
  | inside
deriving Repr, DecidableEq

/-- `wg_tcp_peer_stop`; for a provisional peer, `wg_destroy_temp_peer`. -/
inductive StopPc where
  | idle
  /-- The installation of a provisional peer failed and its destruction is next. -/
  | begin
  | cancelRetry
  | cancelOutbound
  | cancelInbound
  | cancelBootstrap
  | cancelPromotion
  | wait
  | inside
  | finish (failed : Bool)
  | done
deriving Repr, DecidableEq

structure State where
  device : Device
  peer : Peer
  socks : SockId → Sock
  lock : Option Holder
  reader : ReadPc
  writer : WritePc
  retry : Option DialPc
  admin : Option DialPc
  outbound : OutboundPc
  inbound : LockPc
  bootstrap : LockPc
  promotion : PromotionPc
  stop : StopPc

/-- A peer without a carrier on a device that is up. -/
def State.init (tempPeer : Bool) (addressing : Addressing) : State where
  device := ⟨.tcp, true, true⟩
  peer := .create tempPeer addressing
  socks := fun _ => .unused
  lock := none
  reader := .idle
  writer := .idle
  retry := none
  admin := none
  outbound := .idle
  inbound := .idle
  bootstrap := .idle
  promotion := .idle
  stop := .idle

namespace State

@[simps] def hold (σ : State) (h : Holder) : State := { σ with lock := some h }

@[simps] def setPeer (σ : State) (p : Peer) : State := { σ with peer := p }

@[simps] def setSock (σ : State) (s : SockId) (sk : Sock) : State :=
  { σ with socks := Function.update σ.socks s sk }

/-- The receive queue of the active socket. -/
def activeQueue (σ : State) : Bytes :=
  match σ.peer.links.peerSocket with
  | some s => (σ.socks s).receiveQueue
  | none => []

def setCaller (σ : State) (caller : Caller) (pc : Option DialPc) : State :=
  match caller with
  | .retry => { σ with retry := pc }
  | .admin => { σ with admin := pc }
  | .outbound =>
      { σ with
        outbound :=
          match pc with
          | some pc => .dial pc
          | none => .idle }

section

variable (σ : State) (caller : Caller) (pc : Option DialPc)

@[simp] theorem setCaller_device : (σ.setCaller caller pc).device = σ.device := by
  cases caller <;> rfl
@[simp] theorem setCaller_peer : (σ.setCaller caller pc).peer = σ.peer := by cases caller <;> rfl
@[simp] theorem setCaller_socks : (σ.setCaller caller pc).socks = σ.socks := by cases caller <;> rfl
@[simp] theorem setCaller_lock : (σ.setCaller caller pc).lock = σ.lock := by cases caller <;> rfl
@[simp] theorem setCaller_reader : (σ.setCaller caller pc).reader = σ.reader := by
  cases caller <;> rfl
@[simp] theorem setCaller_writer : (σ.setCaller caller pc).writer = σ.writer := by
  cases caller <;> rfl
@[simp] theorem setCaller_stop : (σ.setCaller caller pc).stop = σ.stop := by cases caller <;> rfl

end

def caller (σ : State) : Caller → Option DialPc
  | .retry => σ.retry
  | .admin => σ.admin
  | .outbound =>
      match σ.outbound with
      | .dial pc => some pc
      | _ => none

end State

@[simp] theorem State.caller_retry (σ : State) : σ.caller .retry = σ.retry := rfl

@[simp] theorem State.caller_admin (σ : State) : σ.caller .admin = σ.admin := rfl

@[simp] theorem State.caller_outbound_eq_some {σ : State} {pc : DialPc} :
    σ.caller .outbound = some pc ↔ σ.outbound = .dial pc := by
  cases h : σ.outbound <;> simp [State.caller, h]

/-! ## The holder of the socket lock -/

/-- Results of the fallible calls of a step, and the name of a new socket. -/
structure Choice where
  ok : Bool
  sock : SockId
deriving Repr, DecidableEq

def Plan.next : Plan → Holder
  | .detach s owner => .reset s owner
  | .promote new (some s) old => .reset s (.promoteInbound new old)
  | .promote new none (some s) => .reset s (.promoteOutbound new)
  | .promote new none none => .promotePublish new
  | .stop outbound inbound => .stopPurge outbound inbound
  | .destroy (some s) => .reset s .destroy
  | .destroy none => .destroyed false
  | .handover s => .handoverReset s

/-- Where the teardown of `s` leads, once it is through or has failed. -/
def Owner.next (s : SockId) (failed : Bool) : Owner → Holder
  | .unwind caller => if failed then .unwindAbort caller else .unwindFinish caller
  | .outbound retryNeeded => .outboundFinish retryNeeded false failed
  | .inbound => .inboundFinish failed
  | .promoteInbound new old =>
      if failed then .promoteUnlock
      else
        match old with
        | some o => if o = s then .promotePublish new else .reset o (.promoteOutbound new)
        | none => .promotePublish new
  | .promoteOutbound new => if failed then .promoteUnlock else .promotePublish new
  | .rollback => .promoteUnlock
  | .stopOutbound (some i) => if i = s then .stopUnlock failed else .reset i (.stopInbound failed)
  | .stopOutbound none => .stopUnlock failed
  | .stopInbound failedBefore => .stopUnlock (failedBefore || failed)
  | .destroy => .destroyed failed

/-- The flags cleared behind the two cancellations. -/
def Plan.clear (p : Peer) : Plan → Peer
  | .stop _ _ => p.stopClear
  | _ => p.clearStreamFlags

namespace State

/-- `wg_tcp_connect` and `wg_tcp_connect_unwind`. -/
def connectStep (σ : State) (choice : Choice) : Holder → Option State
  | .connectGate caller =>
      match σ.peer.connectGate σ.device with
      | .done => some (σ.hold (.connectReturn caller false none))
      | .refused => some (σ.hold (.connectReturn caller true none))
      | .dial p => some ((σ.setPeer p).hold (.connectCreate caller))
  | .connectCreate caller =>
      if !choice.ok then some (σ.hold (.unwind caller none))
      else if (σ.socks choice.sock).stage = .unused then
        some ((σ.setSock choice.sock { σ.socks choice.sock with stage := .dialing }).hold
          (.connectPublish caller choice.sock))
      else none
  | .connectPublish caller s =>
      match σ.peer.connectPublish σ.device s with
      | none => some (σ.hold (.unwind caller (some s)))
      | some p =>
          some (((σ.setPeer p).setSock s { σ.socks s with stage := .owned }).hold
            (.connectSetup caller s))
  | .connectSetup caller s =>
      if (σ.socks s).callbackRunning then none
      else
        match σ.peer.wgSetupTcpSocketCallbacks choice.ok σ.device (σ.socks s) s false with
        | .error _ => some (σ.hold (.unwind caller (some s)))
        | .ok (p, sk) => some (((σ.setPeer p).setSock s sk).hold (.connectStart caller s))
  | .connectStart caller s =>
      if !choice.ok then some (σ.hold (.unwind caller (some s)))
      else if (σ.socks s).callback.isSome then none
      else
        some ((σ.setSock s { σ.socks s with skState := .synSent }).hold (.connectFinish caller s))
  | .connectFinish caller s =>
      match σ.peer.connectFinish σ.device s (σ.socks s).skState with
      | none => some (σ.hold (.unwind caller (some s)))
      | some (first, p) =>
          some ((σ.setPeer p).hold
            (.connectReturn caller false (if first then some s else none)))
  | .unwind caller none => some (σ.hold (.unwindFinish caller))
  | .unwind caller (some s) =>
      let claim := σ.peer.unwindClaim s
      if claim.1 then some ((σ.setPeer claim.2).hold (.cancelRead (.detach s (.unwind caller))))
      else some (σ.hold (.unwindFinish caller))
  | .unwindFinish caller =>
      let finish := σ.peer.unwindFinish σ.device
      some ((σ.setPeer finish.2).hold
        (if finish.1 then .unwindQueue caller else .connectReturn caller true none))
  | .unwindAbort caller =>
      some ((σ.setPeer σ.peer.unwindAbort).hold (.connectReturn caller true none))
  | .unwindQueue caller =>
      some ((σ.setPeer σ.peer.unwindQueue).hold (.connectReturn caller true none))
  | .connectReturn caller failed greet =>
      let pc := if failed then some .failed else greet.map DialPc.greet
      some { σ.setCaller caller pc with lock := none }
  | _ => none

/-- The two removal workers. -/
def removeStep (σ : State) : Holder → Option State
  | .outboundView retryNeeded =>
      let view := σ.peer.removalView false
      let σ := σ.setPeer σ.peer.outboundRemoveBegin
      if view.clean then
        match view.socket with
        | some s => some (σ.hold (.drain [s] (.detach s (.outbound retryNeeded)) view.active))
        | none => some (σ.hold (.outboundFinish retryNeeded false false))
      else some (σ.hold (.outboundFinish retryNeeded true false))
  | .outboundFinish retryNeeded reclaim failed =>
      let post : OutboundPost :=
        ⟨retryNeeded, σ.peer.tcpReconnectRequested, σ.peer.tcpStopping, reclaim, failed⟩
      some ((σ.setPeer (σ.peer.outboundRemoveFinish failed)).hold
        (if failed then .outboundUnlock post else .outboundRearm post))
  | .outboundRearm post =>
      some ((σ.setPeer (σ.peer.wgTcpRearmSurvivingStreamLocked σ.device σ.activeQueue)).hold
        (.outboundUnlock post))
  | .outboundUnlock post => some { σ with lock := none, outbound := .post post }
  | .inboundView =>
      let view := σ.peer.removalView true
      if view.clean then
        match view.socket with
        | some s => some (σ.hold (.drain [s] (.detach s .inbound) view.active))
        | none => some (σ.hold (.inboundFinish false))
      else some (σ.hold (.inboundFinish false))
  | .inboundFinish failed =>
      some ((σ.setPeer (σ.peer.inboundRemoveFinish failed)).hold
        (if failed then .inboundUnlock else .inboundRearm))
  | .inboundRearm =>
      some ((σ.setPeer (σ.peer.wgTcpRearmSurvivingStreamLocked σ.device σ.activeQueue)).hold
        .inboundUnlock)
  | .inboundUnlock => some { σ with lock := none, inbound := .idle }
  | _ => none

/-- `wg_tcp_promote_authenticated_carrier` on the configured peer, and the bootstrap worker. -/
def promoteStep (σ : State) (choice : Choice) : Holder → Option State
  | .promoteCheck s connectionId =>
      match σ.peer.promoteGeneration connectionId with
      | none => some (σ.hold .promoteUnlock)
      | some p => some ((σ.setPeer p).hold (.promoteDetach s))
  | .promoteDetach s =>
      -- The provisional peer gives the socket up, or turns out not to own it any more.
      if (σ.socks s).callbackRunning then none
      else some (σ.hold (if choice.ok then .promoteClaim s else .promoteUnlock))
  | .promoteClaim s =>
      let inbound := σ.peer.links.inboundSocket
      let outbound := σ.peer.links.outboundSocket
      some ((σ.setPeer σ.peer.promoteClaim).hold
        (if inbound.isSome || outbound.isSome then .cancelRead (.promote s inbound outbound)
          else .promotePublish s))
  | .promotePublish s =>
      some (((σ.setPeer (σ.peer.promotePublish s)).setSock s
        { σ.socks s with stage := .owned }).hold
        (.promoteSetup s))
  | .promoteSetup s =>
      if (σ.socks s).callbackRunning then none
      else
        match σ.peer.wgSetupTcpSocketCallbacks choice.ok σ.device (σ.socks s) s true with
        | .error _ => some (σ.hold (.promoteForget s))
        | .ok (p, sk) => some (((σ.setPeer p).setSock s sk).hold .promoteRearm)
  | .promoteForget s => some ((σ.setPeer σ.peer.promoteForget).hold (.release s .rollback))
  | .promoteRearm =>
      some ((σ.setPeer (σ.peer.wgTcpRearmSurvivingStreamLocked σ.device σ.activeQueue)).hold
        .promoteUnlock)
  | .promoteUnlock => some { σ with lock := none, promotion := .take }
  | .bootstrapTake =>
      some ((σ.setPeer σ.peer.takeBootstrap).hold
        (match σ.peer.tcpBootstrapSocket with
          | some s => .bootstrapGreet s
          | none => .bootstrapUnlock))
  -- The keepalive that a current carrier is greeted with is a frame like any other.
  | .bootstrapGreet _ => some (σ.hold .bootstrapUnlock)
  | .bootstrapUnlock => some { σ with lock := none, bootstrap := .idle }
  | _ => none

/-- Stop, and the life of a provisional peer. -/
def stopStep (σ : State) (choice : Choice) : Holder → Option State
  | .stopReclaim =>
      let outbound := σ.peer.links.outboundSocket
      let inbound := σ.peer.links.inboundSocket
      some ((σ.setPeer σ.peer.stopReclaim).hold
        (.drain (outbound.toList ++ inbound.toList) (.stop outbound inbound) true))
  | .stopPurge outbound inbound =>
      some ((σ.setPeer σ.peer.purgeSendQueue).hold
        (match outbound, inbound with
          | some s, inbound => .reset s (.stopOutbound inbound)
          | none, some s => .reset s (.stopInbound false)
          | none, none => .stopUnlock false))
  | .stopUnlock failed => some { σ with lock := none, stop := .finish failed }
  | .installSetup s =>
      if (σ.socks s).callbackRunning then none
      else
        match σ.peer.wgSetupTcpSocketCallbacks choice.ok σ.device (σ.socks s) s true with
        | .error _ => some (σ.hold .installFail)
        | .ok (p, sk) => some (((σ.setPeer p).setSock s sk).hold (.installList s))
  | .installList s => some (σ.hold (if choice.ok then .installData s else .installFail))
  | .installData s =>
      some ((if (σ.socks s).receiveQueue.isEmpty then σ
        else σ.setPeer (σ.peer.wgTcpDataReady σ.device)).hold (.installFinish s))
  | .installFinish s =>
      some { σ.setPeer (σ.peer.finishInit (σ.socks s).skState) with lock := none }
  | .installFail =>
      some { σ with lock := none, stop := if σ.stop = .idle then .begin else σ.stop }
  | .destroyed failed =>
      some { σ.setPeer (if failed then σ.peer else { σ.peer with streamWq := false }) with
        lock := none, stop := .done }
  | .handoverClaim s =>
      match σ.peer.handoverClaim s with
      | none => some { σ with lock := none }
      | some p => some ((σ.setPeer p).hold (.drain [s] (.handover s) true))
  | .handoverReset s =>
      if (σ.socks s).callbackRunning then none
      else
        match σ.peer.wgResetExactTcpSocketCallbacks (σ.socks s) s with
        | .error _ => some { σ with lock := none }
        | .ok (p, sk) => some (((σ.setPeer p).setSock s sk).hold .handoverDetach)
  | .handoverDetach => some { σ.setPeer σ.peer.handoverDetach with lock := none }
  | _ => none

/-- Cancelling the stream workers and tearing a socket down. -/
def teardownStep (σ : State) : Holder → Option State
  | .drain [] plan cancel => some (σ.hold (if cancel then .cancelRead plan else plan.next))
  | .drain (s :: rest) plan cancel =>
      if (σ.socks s).callbackRunning then none else some (σ.hold (.drain rest plan cancel))
  | .cancelRead plan =>
      if σ.reader = .idle then
        some ((σ.setPeer { σ.peer with read := { σ.peer.read with work := false } }).hold
          (.cancelWrite plan))
      else none
  | .cancelWrite plan =>
      if σ.writer = .idle then
        some ((σ.setPeer { σ.peer with write := { σ.peer.write with work := false } }).hold
          (.clearFlags plan))
      else none
  | .clearFlags plan => some ((σ.setPeer (plan.clear σ.peer)).hold plan.next)
  | .reset s owner =>
      if (σ.socks s).callbackRunning then none
      else
        match σ.peer.wgResetExactTcpSocketCallbacks (σ.socks s) s with
        | .error _ => some (σ.hold (owner.next s true))
        | .ok (p, sk) => some (((σ.setPeer p).setSock s sk).hold (.release s owner))
  | .release s owner =>
      match σ.peer.releaseSection s with
      | .error _ => some (σ.hold (owner.next s true))
      | .ok p =>
          some ((σ.setPeer p).hold
            (if σ.peer.links.peerSocket = some s then .purge s owner else .shutdown s owner))
  | .purge s owner => some ((σ.setPeer σ.peer.purgeSendQueue).hold (.shutdown s owner))
  | .shutdown s owner =>
      some ((σ.setSock s { σ.socks s with skState := .close }).hold (owner.next s false))
  | _ => none

def lockedStep (σ : State) (choice : Choice) (h : Holder) : Option State :=
  match h with
  | .connectGate _ | .connectCreate _ | .connectPublish _ _ | .connectSetup _ _
  | .connectStart _ _ | .connectFinish _ _ | .unwind _ _ | .unwindFinish _ | .unwindAbort _
  | .unwindQueue _ | .connectReturn _ _ _ => σ.connectStep choice h
  | .outboundView _ | .outboundFinish _ _ _ | .outboundRearm _ | .outboundUnlock _
  | .inboundView | .inboundFinish _ | .inboundRearm | .inboundUnlock => σ.removeStep h
  | .promoteCheck _ _ | .promoteDetach _ | .promoteClaim _ | .promotePublish _ | .promoteSetup _
  | .promoteForget _ | .promoteRearm | .promoteUnlock | .bootstrapTake | .bootstrapGreet _
  | .bootstrapUnlock => σ.promoteStep choice h
  | .stopReclaim | .stopPurge _ _ | .stopUnlock _ | .installSetup _ | .installList _
  | .installData _ | .installFinish _ | .installFail | .destroyed _ | .handoverClaim _
  | .handoverReset _ | .handoverDetach => σ.stopStep choice h
  | .drain _ _ _ | .cancelRead _ | .cancelWrite _ | .clearFlags _ | .reset _ _ | .release _ _
  | .purge _ _ | .shutdown _ _ => σ.teardownStep h

end State

end WgTcp
