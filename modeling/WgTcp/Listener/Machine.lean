import WgTcp.Foundation.Transition
import WgTcp.Listener.Tracking

/-!
# A device that accepts connections

The two listener threads, the cleanup worker, the promotion workers of the
configured peers, and the thread that opens and stops the device, each one step
at a time: a step is a section under `tcp_connection_list_lock`, the read or the
write of a flag, or the wait for another thread. Provisional peers make
themselves noticed by their callbacks: they touch their entry, die, and queue
the sweep.

Of a configured peer only what the device's list and its teardown meet is kept:
the stop barrier, the promotion request with its worker, and the carriers the
peer owns.
-/

namespace WgTcp

namespace Listener

open Netlink (SockAddr)

/-! ## Threads -/

inductive Family where
  | v4
  | v6
deriving Repr, DecidableEq

/-- Where a listener thread is in `wg_tcp_listener_worker`. -/
inductive ListenerPc where
  /-- Not started, or joined. -/
  | absent
  | accepting
  /-- Returned, and not yet joined. -/
  | exited
  /-- The throttle comes next. -/
  | accepted (s : SockId) (addr : SockAddr)
  /-- The search for a pending connection of the same source comes next. -/
  | searching (s : SockId) (addr : SockAddr)
  /-- `wg_remove_from_tcp_connection_list` of the socket found. -/
  | replacing (s : SockId) (addr : SockAddr) (old : SockId)
  | discarding (s : SockId) (addr : SockAddr) (e : ListEntry)
  /-- The provisional peer, its callbacks and its entry come next. -/
  | preparing (s : SockId) (addr : SockAddr)
  | adding (e : ListEntry)
  /-- `wg_destroy_temp_peer` after a failure. -/
  | dropping (e : ListEntry)
  /-- The entry is on the list; the sweep is to be queued. -/
  | queueing (s : SockId)
  /-- `wg_finish_tcp_connection_init` comes next. -/
  | finishing (s : SockId)
  | finished (s : SockId) (cleanup : Bool)
  /-- `tcp_cleanup_scheduled` was seen; the sweep is to be queued. -/
  | kicking (s : SockId)
deriving Repr, DecidableEq

/-- The connection on whose provisional peer the thread holds `tcp_socket_lock`. -/
def ListenerPc.locked : ListenerPc → Option SockId
  | .queueing s | .finishing s | .finished s _ | .kicking s => some s
  | _ => none

/-- The entry that only the thread knows. -/
def ListenerPc.entry : ListenerPc → Option ListEntry
  | .discarding _ _ e | .adding e | .dropping e => some e
  | _ => none

/-- Where `wg_tcp_cleanup_worker` is. -/
inductive WorkerPc where
  | idle
  | claiming
  /-- `wg_claim_tcp_connection` has read the clock. -/
  | claimingAt (now : Nat)
  | destroying (e : ListEntry)
  | checking
  | checked (pending : Bool)
  | rearming
deriving Repr, DecidableEq

def WorkerPc.entry : WorkerPc → Option ListEntry
  | .destroying e => some e
  | _ => none

/-- Where `wg_tcp_promotion_worker` of a configured peer is. -/
inductive PromotionPc where
  | idle
  | taking
  | claiming (connectionId : Nat)
  /-- An entry is claimed; its socket is not yet the peer's. -/
  | moving (e : ListEntry)
  /-- The socket is the peer's; its callbacks come next. -/
  | hooking (s : SockId)
  | failing (e : ListEntry)
deriving Repr, DecidableEq

def PromotionPc.entry : PromotionPc → Option ListEntry
  | .moving e | .failing e => some e
  | _ => none

/-- A configured peer, as far as it meets the device's list and its teardown. -/
structure CarrierPeer where
  tcpStopping : Bool
  /-- `tcp_promotion_connection_id`. -/
  promotionId : Nat
  /-- `tcp_promotion_worker_scheduled`, `tcp_promotion_work`. -/
  promotionItem : WorkItem
  promotion : PromotionPc
  carriers : List SockId
deriving Repr, DecidableEq

/-- `wg_peer_create`. -/
def CarrierPeer.create : CarrierPeer := ⟨false, 0, .idle, .idle, []⟩

inductive ListenSocket where
  | absent
  | listening
  | shutDown
deriving Repr, DecidableEq

/-! ## Opening and stopping -/

/-- The calls of `wg_open` and `wg_tcp_listener_socket_init` that may fail, in order. -/
inductive OpenStage where
  | udp
  | authWq
  | listen4
  | listen6
  | publish (ipv6 : Bool)
  | thread4
  | thread6
  | peers (i : Nat)
deriving Repr, DecidableEq

/-- `wg_tcp_listener_socket_release`. -/
inductive ReleaseStage where
  | shutdown
  | join4
  | join6
  | release
deriving Repr, DecidableEq

/-- From the release of the listeners to the end of `wg_stop` or of a failed `wg_open`. -/
inductive CloseStage where
  | releasing (stage : ReleaseStage)
  | cancel
  | drain
  | destroy (e : ListEntry)
  | cancelAgain
  | reinit
deriving Repr, DecidableEq

/-- The thread that holds RTNL. An open carries the port that was requested. -/
inductive Control where
  | down
  /-- `wg_open` returned an error. -/
  | failed (requested : Nat)
  | opening (stage : OpenStage) (requested : Nat)
  | up
  /-- The error path of `wg_tcp_listener_socket_init`. -/
  | undoing (stage : ReleaseStage) (requested : Nat)
  /-- At `err_tcp_open`. -/
  | failing (requested : Nat)
  /-- `wg_tcp_peer_stop` of a peer, before and behind its barrier. -/
  | stopping (i : Nat)
  | quieting (i : Nat)
  | closing (stage : CloseStage) (requested : Option Nat)
deriving Repr, DecidableEq

def Control.entry : Control → Option ListEntry
  | .closing (.destroy e) _ => some e
  | _ => none

/-- Nobody holds RTNL. -/
def Control.resting : Control → Bool
  | .down | .failed _ | .up => true
  | _ => false

/-! ## The state -/

structure State where
  tracking : Tracking
  /-- `tcp_cleanup_scheduled`. -/
  cleanupScheduled : Bool
  /-- The pending bit of `tcp_cleanup_work`. -/
  cleanupWork : Bool
  worker : WorkerPc
  listener4 : ListenerPc
  listener6 : ListenerPc
  /-- Provisional peers of which a callback or a worker has seen `tcp_cleanup_scheduled` and is
  about to queue the sweep. -/
  kicks : List Nat
  peers : List CarrierPeer
  control : Control
  udpSocket : Bool
  incomingPort : Nat
  /-- `tcp_auth_wq` exists. -/
  authWq : Bool
  listenSocket4 : ListenSocket
  listenSocket6 : ListenSocket
  nextSock : SockId
  clock : Nat
deriving Repr, DecidableEq

/-- A new device. -/
def State.init : State where
  tracking := .empty
  cleanupScheduled := false
  cleanupWork := false
  worker := .idle
  listener4 := .absent
  listener6 := .absent
  kicks := []
  peers := []
  control := .down
  udpSocket := false
  incomingPort := 0
  authWq := false
  listenSocket4 := .absent
  listenSocket6 := .absent
  nextSock := 0
  clock := 0

namespace State

def listener (σ : State) : Family → ListenerPc
  | .v4 => σ.listener4
  | .v6 => σ.listener6

def setListener (σ : State) (f : Family) (pc : ListenerPc) : State :=
  match f with
  | .v4 => { σ with listener4 := pc }
  | .v6 => { σ with listener6 := pc }

theorem listener_setListener (σ : State) (f g : Family) (pc : ListenerPc) :
    (σ.setListener f pc).listener g = if g = f then pc else σ.listener g := by
  cases f <;> cases g <;> rfl

section Fields

variable (σ : State) (f : Family) (pc : ListenerPc)

@[simp] theorem setListener_tracking : (σ.setListener f pc).tracking = σ.tracking := by
  cases f <;> rfl

@[simp] theorem setListener_cleanupScheduled :
    (σ.setListener f pc).cleanupScheduled = σ.cleanupScheduled := by
  cases f <;> rfl

@[simp] theorem setListener_cleanupWork : (σ.setListener f pc).cleanupWork = σ.cleanupWork := by
  cases f <;> rfl

@[simp] theorem setListener_worker : (σ.setListener f pc).worker = σ.worker := by
  cases f <;> rfl

@[simp] theorem setListener_kicks : (σ.setListener f pc).kicks = σ.kicks := by
  cases f <;> rfl

@[simp] theorem setListener_peers : (σ.setListener f pc).peers = σ.peers := by
  cases f <;> rfl

@[simp] theorem setListener_control : (σ.setListener f pc).control = σ.control := by
  cases f <;> rfl

@[simp] theorem setListener_clock : (σ.setListener f pc).clock = σ.clock := by
  cases f <;> rfl

end Fields

def listenSocket (σ : State) : Family → ListenSocket
  | .v4 => σ.listenSocket4
  | .v6 => σ.listenSocket6

def setPeer (σ : State) (i : Nat) (p : CarrierPeer) : State := { σ with peers := σ.peers.set i p }

/-- Every entry there is: on the list, or in the hands of one thread. -/
def entries (σ : State) : List ListEntry :=
  σ.tracking.list ++ σ.listener4.entry.toList ++ σ.listener6.entry.toList ++
    σ.worker.entry.toList ++ σ.peers.flatMap (·.promotion.entry.toList) ++ σ.control.entry.toList

/-- `wg_destroy_tcp_connection_entry` can return: no callback or worker of the provisional peer is
under way, and nobody holds its `tcp_socket_lock`. -/
def destroyable (σ : State) (e : ListEntry) : Bool :=
  !e.tempPeer.any (fun peer => σ.kicks.contains peer.id) &&
    !(e.tcpSocket.isSome &&
      (σ.listener4.locked == e.tcpSocket || σ.listener6.locked == e.tcpSocket))

end State

/-! ## Steps -/

/-- What the outside decides in a step of a listener thread. -/
inductive ListenerChoice where
  | accept (addr : SockAddr)
  /-- `kernel_accept` fails, or the thread is asked to stop. -/
  | leave
  /-- Whether the call made in the step succeeds. -/
  | answer (ok : Bool)
  /-- The pending socket found for the source. -/
  | found (old : Option SockId)
deriving Repr, DecidableEq

inductive ControlChoice where
  | openDevice
  | stopDevice
  /-- Whether the call made in the step succeeds, the port it gives, and whether there is IPv6. -/
  | proceed (ok : Bool) (port : Nat) (ipv6 : Bool)
deriving Repr, DecidableEq

inductive Action where
  | tick (elapsed : Nat)
  | listener (f : Family) (c : ListenerChoice)
  | worker
  /-- Data arrives for a provisional peer: `wg_touch_tcp_connection`. -/
  | touch (peer : Nat)
  /-- A message is authenticated: `wg_tcp_mark_connection_authenticated`. -/
  | mark (connectionId : Nat)
  /-- The connection of a provisional peer is closed. -/
  | kill (peer : Nat)
  | kickCheck (peer : Nat)
  | kickQueue (peer : Nat)
  /-- The promotion request of `wg_socket_set_peer_endpoint_authenticated`. -/
  | request (i connectionId : Nat)
  | promotion (i : Nat) (ok : Bool)
  /-- A configured peer publishes a dialed socket. -/
  | dial (i : Nat)
  /-- A configured peer releases a carrier. -/
  | drop (i : Nat) (s : SockId)
  | control (c : ControlChoice)
  | peerCreate
  | setPort (port : Nat)
deriving Repr, DecidableEq

def listenerStep (σ : State) (f : Family) : ListenerPc → ListenerChoice → Option State
  | .accepting, .accept addr =>
      if σ.listenSocket f = .listening then
        some ({ σ with nextSock := σ.nextSock + 1 }.setListener f (.accepted σ.nextSock addr))
      else none
  | .accepting, .leave => some (σ.setListener f .exited)
  | .accepted s addr, .answer rateAllowed =>
      if rateAllowed && !wgTcpSourceAtCapacity addr σ.tracking then
        some (σ.setListener f (.searching s addr))
      else some (σ.setListener f .accepting)
  | .searching s addr, .found none => some (σ.setListener f (.preparing s addr))
  | .searching s addr, .found (some old) => some (σ.setListener f (.replacing s addr old))
  | .replacing s addr old, .answer _ =>
      match wgClaimTcpConnection σ.clock (some old) false σ.tracking with
      | (none, t) => some ({ σ with tracking := t }.setListener f (.preparing s addr))
      | (some e, t) => some ({ σ with tracking := t }.setListener f (.discarding s addr e))
  | .discarding s addr e, .answer _ =>
      if σ.destroyable e then some (σ.setListener f (.preparing s addr)) else none
  | .preparing s addr, .answer ok =>
      if ok then
        let (e, t) := wgNewListEntry s s addr σ.clock σ.tracking
        some ({ σ with tracking := t }.setListener f (.adding e))
      else some (σ.setListener f .accepting)
  | .adding e, .answer ok =>
      -- `tcp_cleanup_scheduled` is read before the lock is taken, and again under it.
      match if ok then wgAddTcpSocketToList σ.cleanupScheduled e σ.tracking else none with
      | none => some (σ.setListener f (.dropping e))
      | some t => some ({ σ with tracking := t }.setListener f (.queueing (e.tcpSocket.getD 0)))
  | .dropping e, .answer _ =>
      if σ.destroyable e then some (σ.setListener f .accepting) else none
  | .queueing s, .answer _ =>
      some ({ σ with cleanupWork := true }.setListener f (.finishing s))
  | .finishing s, .answer established =>
      let (cleanup, t) := wgFinishTcpConnectionInit established s σ.tracking
      some ({ σ with tracking := t }.setListener f (.finished s cleanup))
  | .finished s cleanup, .answer _ =>
      if cleanup && σ.cleanupScheduled then some (σ.setListener f (.kicking s))
      else some (σ.setListener f .accepting)
  | .kicking _, .answer _ => some ({ σ with cleanupWork := true }.setListener f .accepting)
  | _, _ => none

def workerStep (σ : State) : Option State :=
  match σ.worker with
  | .idle =>
      if σ.cleanupWork then some { σ with worker := .claiming, cleanupWork := false } else none
  | .claiming => some { σ with worker := .claimingAt σ.clock }
  | .claimingAt now =>
      match wgClaimTcpConnection now none true σ.tracking with
      | (none, t) => some { σ with tracking := t, worker := .checking }
      | (some e, t) => some { σ with tracking := t, worker := .destroying e }
  | .destroying e => if σ.destroyable e then some { σ with worker := .claiming } else none
  | .checking => some { σ with worker := .checked !σ.tracking.list.isEmpty }
  | .checked pending =>
      if pending && σ.cleanupScheduled then some { σ with worker := .rearming }
      else some { σ with worker := .idle }
  | .rearming => some { σ with worker := .idle, cleanupWork := true }

/-- A connection is closed while its entry is on the list or about to be. -/
def State.kill (σ : State) (peer : Nat) : State :=
  let mark : ListenerPc → ListenerPc
    | .adding e => .adding (if e.ownedBy peer then e.kill else e)
    | pc => pc
  { σ with
    tracking := σ.tracking.kill peer
    listener4 := mark σ.listener4
    listener6 := mark σ.listener6 }

def requestStep (σ : State) (i connectionId : Nat) (p : CarrierPeer) : State :=
  if !p.tcpStopping && decide (p.promotionId < connectionId) then
    let item := if p.promotionItem.scheduled then p.promotionItem else .queued
    σ.setPeer i { p with promotionId := connectionId, promotionItem := item }
  else σ

def promotionStep (σ : State) (i : Nat) (ok : Bool) (p : CarrierPeer) : Option State :=
  match p.promotion with
  | .idle =>
      if p.promotionItem.work then
        some (σ.setPeer i
          { p with promotionItem := { p.promotionItem with work := false }, promotion := .taking })
      else none
  | .taking =>
      if p.promotionId = 0 then
        some (σ.setPeer i
          { p with promotionItem := { p.promotionItem with scheduled := false }, promotion := .idle
            })
      else some (σ.setPeer i { p with promotionId := 0, promotion := .claiming p.promotionId })
  | .claiming connectionId =>
      -- The number may have become stale.
      match claimAuthenticated σ.clock connectionId (!ok) σ.tracking with
      | (none, t) => some ({ σ with tracking := t }.setPeer i { p with promotion := .taking })
      | (some e, t) => some ({ σ with tracking := t }.setPeer i { p with promotion := .moving e })
  | .moving e =>
      match e.tcpSocket, ok with
      | some s, true =>
          if σ.destroyable e then
            some (σ.setPeer i { p with promotion := .hooking s, carriers := [s] })
          else none
      | _, _ => some (σ.setPeer i { p with promotion := .failing e })
  | .hooking s =>
      if ok && !p.tcpStopping && σ.cleanupScheduled then
        some (σ.setPeer i { p with promotion := .taking })
      else some (σ.setPeer i { p with promotion := .taking, carriers := p.carriers.erase s })
  | .failing e =>
      if σ.destroyable e then some (σ.setPeer i { p with promotion := .taking }) else none

/-- `wg_tcp_listener_socket_release`, with the stage that follows. -/
def releaseStep (σ : State) : ReleaseStage → Option (State × Option ReleaseStage)
  | .shutdown =>
      let shut : ListenSocket → ListenSocket
        | .absent => .absent
        | _ => .shutDown
      some ({ σ with
        listenSocket4 := shut σ.listenSocket4
        listenSocket6 := shut σ.listenSocket6 }, some .join4)
  | .join4 =>
      if σ.listener4 = .absent ∨ σ.listener4 = .exited then
        some ({ σ with listener4 := .absent }, some .join6)
      else none
  | .join6 =>
      if σ.listener6 = .absent ∨ σ.listener6 = .exited then
        some ({ σ with listener6 := .absent }, some .release)
      else none
  | .release => some ({ σ with listenSocket4 := .absent, listenSocket6 := .absent }, none)

def openStep (σ : State) (requested : Nat) (ok : Bool) (port : Nat) (ipv6 : Bool) :
    OpenStage → Option State
  | .udp =>
      if ok then
        if requested = 0 ∧ port = 0 then none
        else
          some { σ with
            udpSocket := true
            incomingPort := if requested = 0 then port else requested
            control := .opening .authWq requested }
      else some { σ with cleanupScheduled := false, control := .failed requested }
  | .authWq =>
      if σ.authWq || ok then
        some { σ with authWq := true, control := .opening .listen4 requested }
      else some { σ with control := .failing requested }
  | .listen4 =>
      if σ.incomingPort = 0 then some { σ with control := .failing requested }
      else if σ.listenSocket4 ≠ .absent ∨ σ.listenSocket6 ≠ .absent then
        some { σ with control := .opening (.peers 0) requested }
      else if ok then some { σ with control := .opening .listen6 requested }
      else some { σ with control := .failing requested }
  | .listen6 =>
      if !ipv6 then some { σ with control := .opening (.publish false) requested }
      else if ok then some { σ with control := .opening (.publish true) requested }
      else some { σ with control := .failing requested }
  | .publish v6 =>
      some { σ with
        listenSocket4 := .listening
        listenSocket6 := if v6 then .listening else .absent
        control := .opening .thread4 requested }
  | .thread4 =>
      if ok then some { σ with listener4 := .accepting, control := .opening .thread6 requested }
      else some { σ with control := .undoing .shutdown requested }
  | .thread6 =>
      if σ.listenSocket6 = .absent then some { σ with control := .opening (.peers 0) requested }
      else if ok then
        some { σ with listener6 := .accepting, control := .opening (.peers 0) requested }
      else some { σ with control := .undoing .shutdown requested }
  | .peers i =>
      match σ.peers[i]? with
      | none => some { σ with control := .up }
      | some p =>
          some { σ.setPeer i { p with tcpStopping := false } with
            control := .opening (.peers (i + 1)) requested }

/-- `cancel_delayed_work_sync(&wg->tcp_cleanup_work)`. -/
def State.cancelCleanup (σ : State) : Option State :=
  if σ.worker = .idle then some { σ with cleanupWork := false } else none

def closeStep (σ : State) (requested : Option Nat) : CloseStage → Option State
  | .releasing stage =>
      (releaseStep σ stage).map fun result =>
        match result with
        | (σ, some next) => { σ with control := .closing (.releasing next) requested }
        | (σ, none) => { σ with control := .closing .cancel requested }
  | .cancel => σ.cancelCleanup.map fun σ => { σ with control := .closing .drain requested }
  | .drain =>
      match wgClaimTcpConnection σ.clock none false σ.tracking with
      | (none, t) => some { σ with tracking := t, control := .closing .cancelAgain requested }
      | (some e, t) => some { σ with tracking := t, control := .closing (.destroy e) requested }
  | .destroy e =>
      if σ.destroyable e then some { σ with control := .closing .drain requested } else none
  | .cancelAgain => σ.cancelCleanup.map fun σ => { σ with control := .closing .reinit requested }
  | .reinit =>
      match requested with
      | none => some { σ with udpSocket := false, control := .down }
      | some port =>
          some { σ with udpSocket := false, incomingPort := port, control := .failed port }

def controlStep (σ : State) : Control → ControlChoice → Option State
  | .down, .openDevice | .failed _, .openDevice =>
      some { σ with cleanupScheduled := true, control := .opening .udp σ.incomingPort }
  | .opening stage requested, .proceed ok port ipv6 => openStep σ requested ok port ipv6 stage
  | .undoing stage requested, .proceed .. =>
      (releaseStep σ stage).map fun result =>
        match result with
        | (σ, some next) => { σ with control := .undoing next requested }
        | (σ, none) => { σ with control := .failing requested }
  | .failing requested, .proceed .. =>
      some { σ with
        cleanupScheduled := false
        control := .closing (.releasing .shutdown) (some requested) }
  | .up, .stopDevice => some { σ with cleanupScheduled := false, control := .stopping 0 }
  | .stopping i, .proceed .. =>
      match σ.peers[i]? with
      | none => some { σ with control := .closing (.releasing .shutdown) none }
      | some p => some { σ.setPeer i { p with tcpStopping := true } with control := .quieting i }
  | .quieting i, .proceed .. =>
      match σ.peers[i]? with
      | none => none
      | some p =>
          -- The promotion worker is cancelled and waited for, then the carriers are released.
          if p.promotion = .idle then
            some { σ.setPeer i
              { p with promotionItem := { p.promotionItem with work := false }, carriers := [] }
              with control := .stopping (i + 1) }
          else none
  | .closing stage requested, .proceed .. => closeStep σ requested stage
  | _, _ => none

def step (σ : State) : Action → Option State
  | .tick elapsed => some { σ with clock := σ.clock + elapsed }
  | .listener f c => listenerStep σ f (σ.listener f) c
  | .worker => workerStep σ
  | .touch peer => some { σ with tracking := wgTouchTcpConnection σ.clock peer σ.tracking }
  | .mark connectionId =>
      some { σ with tracking := wgTcpMarkConnectionAuthenticated σ.clock connectionId σ.tracking }
  | .kill peer => some (σ.kill peer)
  | .kickCheck peer =>
      if σ.cleanupScheduled && σ.entries.any (·.ownedBy peer) then
        some { σ with kicks := peer :: σ.kicks }
      else none
  | .kickQueue peer =>
      if σ.kicks.contains peer then
        some { σ with kicks := σ.kicks.erase peer, cleanupWork := true }
      else none
  | .request i connectionId => (σ.peers[i]?).map (requestStep σ i connectionId)
  | .promotion i ok => (σ.peers[i]?).bind (promotionStep σ i ok)
  | .dial i =>
      (σ.peers[i]?).bind fun p =>
        if !p.tcpStopping && σ.cleanupScheduled && p.carriers.isEmpty then
          some { σ.setPeer i { p with carriers := [σ.nextSock] } with
            nextSock := σ.nextSock + 1 }
        else none
  | .drop i s =>
      (σ.peers[i]?).map fun p => σ.setPeer i { p with carriers := p.carriers.erase s }
  | .control c => controlStep σ σ.control c
  | .peerCreate =>
      if σ.control.resting then some { σ with peers := σ.peers ++ [.create] } else none
  | .setPort port =>
      match σ.control with
      | .down | .failed _ => some { σ with incomingPort := port }
      | _ => none

/-- The states of a device from its creation on. -/
def Reaches (as : List Action) (σ : State) : Prop := Transition.run step State.init as = some σ

/-! ## What a listener thread does -/

/-- The steps of a listener thread, by what they do to the rest of the device. -/
inductive ListenerMove (σ : State) (f : Family) : State → Prop
  | plain {pc : ListenerPc} (n : SockId) (habsent : σ.listener f ≠ .absent)
      (hqueueing : ∀ s, σ.listener f ≠ .queueing s) (hentry : (σ.listener f).entry = none)
      (hthere : pc ≠ .absent) (hafter : pc.entry = none) :
      ListenerMove σ f ({ σ with nextSock := n }.setListener f pc)
  | claim {s old : SockId} {addr : SockAddr} {pc : ListenerPc}
      (hpc : σ.listener f = .replacing s addr old) (hthere : pc ≠ .absent)
      (hadding : ∀ e, pc ≠ .adding e)
      (hentry : pc.entry = (wgClaimTcpConnection σ.clock (some old) false σ.tracking).1) :
      ListenerMove σ f ({ σ with
        tracking := (wgClaimTcpConnection σ.clock (some old) false σ.tracking).2 }.setListener f pc)
  | destroy {e : ListEntry} {pc : ListenerPc} (hpc : (σ.listener f).entry = some e)
      (hadding : ∀ e, σ.listener f ≠ .adding e) (hdestroy : σ.destroyable e = true)
      (hthere : pc ≠ .absent) (hafter : pc.entry = none) :
      ListenerMove σ f (σ.setListener f pc)
  | prepare {s : SockId} {addr : SockAddr} (hpc : σ.listener f = .preparing s addr) :
      ListenerMove σ f ({ σ with
        tracking := (wgNewListEntry s s addr σ.clock σ.tracking).2 }.setListener f
          (.adding (wgNewListEntry s s addr σ.clock σ.tracking).1))
  | refuse {e : ListEntry} (hpc : σ.listener f = .adding e) :
      ListenerMove σ f (σ.setListener f (.dropping e))
  | add {e : ListEntry} {t : Tracking} (hpc : σ.listener f = .adding e)
      (hadd : wgAddTcpSocketToList σ.cleanupScheduled e σ.tracking = some t) :
      ListenerMove σ f ({ σ with tracking := t }.setListener f (.queueing (e.tcpSocket.getD 0)))
  | queue {s : SockId} (hpc : σ.listener f = .queueing s) :
      ListenerMove σ f ({ σ with cleanupWork := true }.setListener f (.finishing s))
  | finish {s : SockId} (established : Bool) (hpc : σ.listener f = .finishing s) :
      ListenerMove σ f ({ σ with
        tracking := (wgFinishTcpConnectionInit established s σ.tracking).2 }.setListener f
          (.finished s (wgFinishTcpConnectionInit established s σ.tracking).1))
  | kick {s : SockId} (hpc : σ.listener f = .kicking s) :
      ListenerMove σ f ({ σ with cleanupWork := true }.setListener f .accepting)

theorem listenerStep_move {σ σ' : State} {f : Family} {c : ListenerChoice}
    (h : listenerStep σ f (σ.listener f) c = some σ') : ListenerMove σ f σ' := by
  have plain {pc : ListenerPc} (habsent : σ.listener f ≠ .absent)
      (hqueueing : ∀ s, σ.listener f ≠ .queueing s) (hentry : (σ.listener f).entry = none)
      (hthere : pc ≠ .absent) (hafter : pc.entry = none) :
      ListenerMove σ f (σ.setListener f pc) := by
    exact ListenerMove.plain σ.nextSock habsent hqueueing hentry hthere hafter
  cases hpc : σ.listener f with
  | absent => simp [hpc, listenerStep] at h
  | exited => simp [hpc, listenerStep] at h
  | accepting =>
    rw [hpc] at h
    cases c with
    | accept addr =>
      simp only [listenerStep] at h
      split at h
      · cases h
        exact .plain _ (by simp [hpc]) (by simp [hpc]) (by simp [hpc, ListenerPc.entry]) (by simp)
          rfl
      · cases h
    | leave =>
      cases h
      exact plain (by simp [hpc]) (by simp [hpc]) (by simp [hpc, ListenerPc.entry]) (by simp) rfl
    | answer ok => cases h
    | found old => cases h
  | accepted s addr =>
    rw [hpc] at h
    cases c with
    | answer ok =>
      simp only [listenerStep] at h
      split at h <;> cases h <;>
        exact plain (by simp [hpc]) (by simp [hpc]) (by simp [hpc, ListenerPc.entry]) (by simp) rfl
    | _ => cases h
  | searching s addr =>
    rw [hpc] at h
    cases c with
    | found old =>
      cases old <;> cases h <;>
        exact plain (by simp [hpc]) (by simp [hpc]) (by simp [hpc, ListenerPc.entry]) (by simp) rfl
    | _ => cases h
  | replacing s addr old =>
    rw [hpc] at h
    cases c with
    | answer ok =>
      have hclaim := @ListenerMove.claim σ f s old addr
      simp only [listenerStep] at h
      split at h <;> rename_i t hresult <;> cases h <;> rw [hresult] at hclaim <;>
        exact hclaim hpc (by simp) (by simp) rfl
    | _ => cases h
  | discarding s addr e =>
    rw [hpc] at h
    cases c with
    | answer ok =>
      simp only [listenerStep] at h
      split at h
      · cases h
        exact .destroy (by rw [hpc]; rfl) (by simp [hpc]) ‹_› (by simp) rfl
      · cases h
    | _ => cases h
  | preparing s addr =>
    rw [hpc] at h
    cases c with
    | answer ok =>
      simp only [listenerStep] at h
      split at h <;> cases h
      · exact .prepare hpc
      · exact plain (by simp [hpc]) (by simp [hpc]) (by simp [hpc, ListenerPc.entry]) (by simp) rfl
    | _ => cases h
  | adding e =>
    rw [hpc] at h
    cases c with
    | answer ok =>
      simp only [listenerStep] at h
      split at h
      · cases h
        exact .refuse hpc
      · rename_i t hadd
        cases h
        cases ok with
        | false => cases hadd
        | true => exact .add hpc hadd
    | _ => cases h
  | dropping e =>
    rw [hpc] at h
    cases c with
    | answer ok =>
      simp only [listenerStep] at h
      split at h
      · cases h
        exact .destroy (by rw [hpc]; rfl) (by simp [hpc]) ‹_› (by simp) rfl
      · cases h
    | _ => cases h
  | queueing s =>
    rw [hpc] at h
    cases c with
    | answer ok =>
      cases h
      exact .queue hpc
    | _ => cases h
  | finishing s =>
    rw [hpc] at h
    cases c with
    | answer ok =>
      cases h
      exact .finish ok hpc
    | _ => cases h
  | finished s cleanup =>
    rw [hpc] at h
    cases c with
    | answer ok =>
      simp only [listenerStep] at h
      split at h <;> cases h <;>
        exact plain (by simp [hpc]) (by simp [hpc]) (by simp [hpc, ListenerPc.entry]) (by simp) rfl
    | _ => cases h
  | kicking s =>
    rw [hpc] at h
    cases c with
    | answer ok =>
      cases h
      exact .kick hpc
    | _ => cases h

end Listener

end WgTcp
