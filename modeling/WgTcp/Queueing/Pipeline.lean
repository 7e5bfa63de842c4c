import WgTcp.Foundation.LinkedQueue
import WgTcp.Foundation.Transition

/-!
# Packets on their way through the crypto workers

A packet is put on the queue of its peer first and on the ring of its device
then. Workers on several processors take packets from the ring, en- or decrypt
them and mark them; one consumer for each peer takes the marked packets from the
queue of the peer. The queue has no lock: producers exchange its head and write
the link to their packet afterwards, and the consumer puts the stub of the queue
behind the last packet before it takes that packet out.

Every access to shared memory is a step of its own, and steps of different
threads come in any order. The machine has the queue of one peer; what the ring
holds of other peers is known to be there only.
-/

namespace WgTcp

namespace Queueing

/-- The address of a packet, or of the first packet of a list. -/
abbrev Skb := Nat

abbrev Cpu := Nat

/-- What `head`, `tail` and `NEXT` point to. -/
inductive Node where
  | stub
  | skb (p : Skb)
deriving Repr, DecidableEq

def Node.skb? : Node → Option Skb
  | .stub => none
  | .skb p => some p

inductive PacketState where
  | uncrypted
  | crypted
  | dead
deriving Repr, DecidableEq

def maxQueuedPackets : Nat := 1024

/-- `struct prev_queue`, with the field `NEXT` of every node. -/
structure PrevQueue where
  head : Node
  tail : Node
  next : Node → Option Node
  peeked : Option Node
  count : Nat

def PrevQueue.init : PrevQueue := ⟨.stub, .stub, fun _ => none, none, 0⟩

/-- Who has a packet, and how far it has come. -/
inductive Place where
  /-- Not in the pipeline. -/
  | caller
  /-- In `wg_prev_queue_enqueue`, before `atomic_add_unless`. -/
  | entering
  /-- In `__wg_prev_queue_enqueue`, before its first line. -/
  | counted
  /-- Before the exchange of the head. -/
  | cleared
  /-- Before the link from the former head is written. -/
  | linking (prev : Node)
  /-- Behind `wg_prev_queue_enqueue`, before `ptr_ring_produce_bh`. -/
  | linked
  /-- The ring was full. -/
  | rejected
  | ring
  | crypt (cpu : Cpu)
  /-- The state has been set; only the consumer has the packet. -/
  | marked
deriving Repr, DecidableEq

/-- The worker of a processor. Of a packet of another peer only the presence is known. -/
inductive Worker where
  | idle
  | consuming
  | crypting (skb : Option Skb)
  /-- Behind `atomic_set_release`, before `queue_work_on`. -/
  | notifying
deriving Repr, DecidableEq

/-- `wg_packet_tx_worker` or `wg_packet_rx_poll`; a node is the variable `tail` of
`wg_prev_queue_dequeue`. -/
inductive Consumer where
  | idle
  | peek
  /-- Before the first load of `NEXT`. -/
  | load
  /-- Before the load of `NEXT` behind the stub. -/
  | reload (tail : Node)
  /-- There is no next node; before the head is read. -/
  | compare (tail : Node)
  /-- In `__wg_prev_queue_enqueue` for the stub, before its first line. -/
  | clearStub (tail : Node)
  | exchangeStub (tail : Node)
  | linkStub (tail prev : Node)
  /-- Before the last load of `NEXT`. -/
  | last (tail : Node)
  /-- Before `atomic_dec`. -/
  | decrement (tail : Node)
  /-- Before the state is read. -/
  | check (first : Node)
deriving Repr, DecidableEq

structure Pipeline where
  queue : PrevQueue
  isDead : Bool
  /-- `PACKET_CB(skb)->state`. -/
  state : Skb → PacketState
  place : Skb → Place
  ring : List (Option Skb)
  /-- The processors of the threads that are before `queue_work_on` for the crypto work. -/
  wakes : List Cpu
  /-- Whether the crypto work of a processor is pending. -/
  work : Cpu → Bool
  worker : Cpu → Worker
  /-- The number of threads that have set the state `DEAD` and are before `queue_work_on` or
  `napi_schedule`. -/
  notifiers : Nat
  /-- Whether the work of the consumer is pending. -/
  scheduled : Bool
  consumer : Consumer
  workDone : Nat
  /-- The packets in the order in which they became the head. -/
  entered : List Skb
  /-- The packets that the consumer has taken, with the states that it read. -/
  handled : List (Skb × PacketState)

namespace Pipeline

def init : Pipeline where
  queue := .init
  isDead := false
  state := fun _ => .uncrypted
  place := fun _ => .caller
  ring := []
  wakes := []
  work := fun _ => false
  worker := fun _ => .idle
  notifiers := 0
  scheduled := false
  consumer := .idle
  workDone := 0
  entered := []
  handled := []

variable (s : Pipeline)

def setPlace (p : Skb) (place : Place) : Pipeline :=
  { s with place := Function.update s.place p place }

def setNext (a : Node) (b : Option Node) : Pipeline :=
  { s with queue := { s.queue with next := Function.update s.queue.next a b } }

def setWorker (cpu : Cpu) (worker : Worker) : Pipeline :=
  { s with worker := Function.update s.worker cpu worker }

def setConsumer (consumer : Consumer) : Pipeline := { s with consumer := consumer }

/-! ## Producers -/

/-- `wg_packet_create_data` or `wg_packet_consume_data` up to the enqueueing. A packet for a dead
peer stays with its caller, who frees it. -/
def enter (p : Skb) : Option Pipeline :=
  if s.place p = .caller then
    if s.isDead then some s
    else some ({ s with state := Function.update s.state p .uncrypted }.setPlace p .entering)
  else none

/-- `atomic_add_unless`; for `-ENOSPC` the caller frees the packet. -/
def addUnless (p : Skb) : Option Pipeline :=
  if s.place p = .entering then
    if s.queue.count = maxQueuedPackets then some (s.setPlace p .caller)
    else some ({ s with queue := { s.queue with count := s.queue.count + 1 } }.setPlace p .counted)
  else none

def clearNext (p : Skb) : Option Pipeline :=
  if s.place p = .counted then some ((s.setNext (.skb p) none).setPlace p .cleared) else none

/-- `xchg_release`. -/
def exchange (p : Skb) : Option Pipeline :=
  if s.place p = .cleared then
    some ({ s with
      queue := { s.queue with head := .skb p }
      entered := s.entered ++ [p] }.setPlace p (.linking s.queue.head))
  else none

def link (p : Skb) : Option Pipeline :=
  match s.place p with
  | .linking prev => some ((s.setNext prev (some (.skb p))).setPlace p .linked)
  | _ => none

/-- `ptr_ring_produce_bh`, with the processor from `wg_cpumask_next_online`. -/
def produce (p : Skb) (cpu : Cpu) : Option Pipeline :=
  if s.place p = .linked then
    if s.ring.length < maxQueuedPackets then
      some ({ s with ring := s.ring ++ [some p], wakes := s.wakes ++ [cpu] }.setPlace p .ring)
    else some (s.setPlace p .rejected)
  else none

/-- What follows `-EPIPE`, up to the state. -/
def kill (p : Skb) : Option Pipeline :=
  if s.place p = .rejected then
    some ({ s with
      state := Function.update s.state p .dead
      notifiers := s.notifiers + 1 }.setPlace p .marked)
  else none

def notify : Option Pipeline :=
  match s.notifiers with
  | 0 => none
  | n + 1 => some { s with notifiers := n, scheduled := true }

/-- `queue_work_on` for the crypto work. -/
def wake (cpu : Cpu) : Option Pipeline :=
  if cpu ∈ s.wakes then
    some { s with wakes := s.wakes.erase cpu, work := Function.update s.work cpu true }
  else none

/-- A packet of another peer on the ring. -/
def produceOther (cpu : Cpu) : Option Pipeline :=
  if s.ring.length < maxQueuedPackets then
    some { s with ring := s.ring ++ [none], wakes := s.wakes ++ [cpu] }
  else none

/-! ## Crypto workers -/

def startWork (cpu : Cpu) : Option Pipeline :=
  if s.work cpu ∧ s.worker cpu = .idle then
    some ({ s with work := Function.update s.work cpu false }.setWorker cpu .consuming)
  else none

/-- `ptr_ring_consume_bh`. -/
def consume (cpu : Cpu) : Option Pipeline :=
  if s.worker cpu = .consuming then
    match s.ring with
    | [] => some (s.setWorker cpu .idle)
    | none :: rest => some ({ s with ring := rest }.setWorker cpu (.crypting none))
    | some p :: rest =>
        some (({ s with ring := rest }.setWorker cpu (.crypting (some p))).setPlace p (.crypt cpu))
  else none

/-- The end of the encryption or decryption, and `atomic_set_release`. The consumer of another peer
is not part of the machine. -/
def crypt (cpu : Cpu) (ok : Bool) : Option Pipeline :=
  match s.worker cpu with
  | .crypting none => some (s.setWorker cpu .consuming)
  | .crypting (some p) =>
      let result := if ok then .crypted else .dead
      some (({ s with state := Function.update s.state p result }.setWorker cpu
        .notifying).setPlace p .marked)
  | _ => none

/-- `queue_work_on` or `napi_schedule` for the consumer. -/
def notifyWork (cpu : Cpu) : Option Pipeline :=
  if s.worker cpu = .notifying then some ({ s with scheduled := true }.setWorker cpu .consuming)
  else none

/-! ## The consumer -/

def start : Option Pipeline :=
  if s.scheduled ∧ s.consumer = .idle then
    some { s with scheduled := false, consumer := .peek, workDone := 0 }
  else none

/-- The end of a dequeueing that takes `tail`, but for the counter. -/
def take (tail next : Node) : Pipeline :=
  { s with queue := { s.queue with tail := next }, consumer := .decrement tail }

/-- The stub at the front is passed over. -/
def skipStub (next : Node) : Pipeline :=
  { s with queue := { s.queue with tail := next }, consumer := .reload next }

/-- The stub becomes the head. -/
def exchangeStub (tail : Node) : Pipeline :=
  { s with queue := { s.queue with head := .stub }, consumer := .linkStub tail s.queue.head }

/-- `atomic_dec`, and the node is remembered as the peeked one. -/
def decrement (tail : Node) : Pipeline :=
  { s with
    queue := { s.queue with count := s.queue.count - 1, peeked := some tail }
    consumer := .check tail }

/-- The rest of the loop for a packet in a state. `budget` is the budget of `wg_packet_rx_poll`; a
poll that has used it up is repeated. -/
def handle (budget : Option Nat) (p : Skb) : Pipeline :=
  let s' := { s with
    queue := { s.queue with peeked := none }
    handled := s.handled ++ [(p, s.state p)]
    workDone := s.workDone + 1 }.setPlace p .caller
  if budget.any (· ≤ s'.workDone) then { s' with scheduled := true, consumer := .idle }
  else s'.setConsumer .peek

/-- What the end of the loop leaves, whether or not the loop goes on. -/
@[simp] theorem handle_fields (budget : Option Nat) (p : Skb) :
    (s.handle budget p).queue = { s.queue with peeked := none } ∧
      (s.handle budget p).handled = s.handled ++ [(p, s.state p)] ∧
      (s.handle budget p).place = Function.update s.place p .caller ∧
      (s.handle budget p).entered = s.entered ∧ (s.handle budget p).ring = s.ring ∧
      (s.handle budget p).worker = s.worker ∧ (s.handle budget p).state = s.state ∧
      (s.handle budget p).wakes = s.wakes ∧ (s.handle budget p).work = s.work := by
  unfold handle
  dsimp only
  split <;> exact ⟨rfl, rfl, rfl, rfl, rfl, rfl, rfl, rfl, rfl⟩

theorem handle_consumer (budget : Option Nat) (p : Skb) :
    (s.handle budget p).consumer = .peek ∨
      (s.handle budget p).consumer = .idle ∧ (s.handle budget p).scheduled = true := by
  unfold handle
  dsimp only
  split
  · exact .inr ⟨rfl, rfl⟩
  · exact .inl rfl

/-- One step of the consumer. -/
def consumerStep (budget : Option Nat) : Option Pipeline :=
  match s.consumer with
  | .idle => none
  | .peek =>
      match s.queue.peeked with
      | some first => some (s.setConsumer (.check first))
      | none => some (s.setConsumer .load)
  | .load =>
      match s.queue.tail, s.queue.next s.queue.tail with
      | .stub, none => some (s.setConsumer .idle)
      | .stub, some next => some (s.skipStub next)
      | tail, some next => some (s.take tail next)
      | tail, none => some (s.setConsumer (.compare tail))
  | .reload tail =>
      match s.queue.next tail with
      | some next => some (s.take tail next)
      | none => some (s.setConsumer (.compare tail))
  | .compare tail =>
      if tail ≠ s.queue.head then some (s.setConsumer .idle)
      else some (s.setConsumer (.clearStub tail))
  | .clearStub tail => some ((s.setNext .stub none).setConsumer (.exchangeStub tail))
  | .exchangeStub tail => some (s.exchangeStub tail)
  | .linkStub tail prev => some ((s.setNext prev (some .stub)).setConsumer (.last tail))
  | .last tail =>
      match s.queue.next tail with
      | some next => some (s.take tail next)
      | none => some (s.setConsumer .idle)
  | .decrement tail => some (s.decrement tail)
  | .check .stub => none
  | .check (.skb p) =>
      if s.state p = .uncrypted then some (s.setConsumer .idle) else some (s.handle budget p)

/-! ## Runs -/

inductive Action where
  | enter (p : Skb)
  | addUnless (p : Skb)
  | clearNext (p : Skb)
  | exchange (p : Skb)
  | link (p : Skb)
  | produce (p : Skb) (cpu : Cpu)
  | kill (p : Skb)
  | notify
  | wake (cpu : Cpu)
  | produceOther (cpu : Cpu)
  | startWork (cpu : Cpu)
  | consume (cpu : Cpu)
  | crypt (cpu : Cpu) (ok : Bool)
  | notifyWork (cpu : Cpu)
  | start
  | consumerStep
  | makeDead
deriving Repr, DecidableEq

def step (budget : Option Nat) (s : Pipeline) : Action → Option Pipeline
  | .enter p => s.enter p
  | .addUnless p => s.addUnless p
  | .clearNext p => s.clearNext p
  | .exchange p => s.exchange p
  | .link p => s.link p
  | .produce p cpu => s.produce p cpu
  | .kill p => s.kill p
  | .notify => s.notify
  | .wake cpu => s.wake cpu
  | .produceOther cpu => s.produceOther cpu
  | .startWork cpu => s.startWork cpu
  | .consume cpu => s.consume cpu
  | .crypt cpu ok => s.crypt cpu ok
  | .notifyWork cpu => s.notifyWork cpu
  | .start => s.start
  | .consumerStep => s.consumerStep budget
  | .makeDead => some { s with isDead := true }

/-! ## What a step can do -/

variable {s s' : Pipeline} {budget : Option Nat}

/-- The variable `tail` is the first node, and `NEXT` of it has not been loaded. -/
def BeforeNext (s : Pipeline) (t : Node) : Prop :=
  (s.consumer = .load ∧ s.queue.tail = t ∧ t ≠ .stub) ∨ s.consumer = .reload t

inductive ConsumerMove (budget : Option Nat) (s : Pipeline) : Pipeline → Prop where
  | recheck (first : Node) (hc : s.consumer = .peek) (hpeeked : s.queue.peeked = some first) :
      ConsumerMove budget s (s.setConsumer (.check first))
  | dequeue (hc : s.consumer = .peek) (hpeeked : s.queue.peeked = none) :
      ConsumerMove budget s (s.setConsumer .load)
  | empty (hc : s.consumer = .load) (htail : s.queue.tail = .stub)
      (hnext : s.queue.next .stub = none) : ConsumerMove budget s (s.setConsumer .idle)
  | skipStub (n : Node) (hc : s.consumer = .load) (htail : s.queue.tail = .stub)
      (hnext : s.queue.next .stub = some n) : ConsumerMove budget s (s.skipStub n)
  | take (t n : Node) (hc : s.BeforeNext t ∨ s.consumer = .last t)
      (hnext : s.queue.next t = some n) : ConsumerMove budget s (s.take t n)
  | alone (t : Node) (hc : s.BeforeNext t) (hnext : s.queue.next t = none) :
      ConsumerMove budget s (s.setConsumer (.compare t))
  | behind (t : Node) (hc : s.consumer = .compare t) (hhead : t ≠ s.queue.head) :
      ConsumerMove budget s (s.setConsumer .idle)
  | ahead (t : Node) (hc : s.consumer = .compare t) (hhead : s.queue.head = t) :
      ConsumerMove budget s (s.setConsumer (.clearStub t))
  | clearStub (t : Node) (hc : s.consumer = .clearStub t) :
      ConsumerMove budget s ((s.setNext .stub none).setConsumer (.exchangeStub t))
  | exchangeStub (t : Node) (hc : s.consumer = .exchangeStub t) :
      ConsumerMove budget s (s.exchangeStub t)
  | linkStub (t prev : Node) (hc : s.consumer = .linkStub t prev) :
      ConsumerMove budget s ((s.setNext prev (some .stub)).setConsumer (.last t))
  | missing (t : Node) (hc : s.consumer = .last t) (hnext : s.queue.next t = none) :
      ConsumerMove budget s (s.setConsumer .idle)
  | decrement (t : Node) (hc : s.consumer = .decrement t) :
      ConsumerMove budget s (s.decrement t)
  | wait (p : Skb) (hc : s.consumer = .check (.skb p)) (hstate : s.state p = .uncrypted) :
      ConsumerMove budget s (s.setConsumer .idle)
  | handle (p : Skb) (hc : s.consumer = .check (.skb p)) (hstate : s.state p ≠ .uncrypted) :
      ConsumerMove budget s (s.handle budget p)

theorem consumerMove_of_step (h : s.consumerStep budget = some s') : ConsumerMove budget s s' := by
  unfold consumerStep at h
  split at h
  · cases h
  · next hc =>
    split at h
    · next first hpeeked =>
      cases h
      exact .recheck first hc hpeeked
    · next hpeeked =>
      cases h
      exact .dequeue hc hpeeked
  · next hc =>
    cases htail : s.queue.tail with
    | stub =>
      cases hnext : s.queue.next .stub with
      | none =>
        simp only [htail, hnext] at h
        cases h
        exact .empty hc htail hnext
      | some n =>
        simp only [htail, hnext] at h
        cases h
        exact .skipStub n hc htail hnext
    | skb q =>
      have hbefore : s.BeforeNext (.skb q) := .inl ⟨hc, htail, by simp⟩
      cases hnext : s.queue.next (.skb q) with
      | none =>
        simp only [htail, hnext] at h
        cases h
        exact .alone _ hbefore hnext
      | some n =>
        simp only [htail, hnext] at h
        cases h
        exact .take _ n (.inl hbefore) hnext
  · next t hc =>
    split at h
    · next n hnext =>
      cases h
      exact .take t n (.inl (.inr hc)) hnext
    · next hnext =>
      cases h
      exact .alone t (.inr hc) hnext
  · next t hc =>
    split at h
    · next hhead =>
      cases h
      exact .behind t hc hhead
    · next hhead =>
      cases h
      exact .ahead t hc (not_not.mp hhead).symm
  · next t hc =>
    cases h
    exact .clearStub t hc
  · next t hc =>
    cases h
    exact .exchangeStub t hc
  · next t prev hc =>
    cases h
    exact .linkStub t prev hc
  · next t hc =>
    split at h
    · next n hnext =>
      cases h
      exact .take t n (.inr hc) hnext
    · next hnext =>
      cases h
      exact .missing t hc hnext
  · next t hc =>
    cases h
    exact .decrement t hc
  · cases h
  · next p hc =>
    split at h
    · next hstate =>
      cases h
      exact .wait p hc hstate
    · next hstate =>
      cases h
      exact .handle p hc hstate

inductive Move (budget : Option Nat) (s : Pipeline) : Pipeline → Prop where
  /-- A packet for a dead peer. -/
  | refuse : Move budget s s
  | enter (p : Skb) (hp : s.place p = .caller) :
      Move budget s
        ({ s with state := Function.update s.state p .uncrypted }.setPlace p .entering)
  | full (p : Skb) (hp : s.place p = .entering) (hcount : s.queue.count = maxQueuedPackets) :
      Move budget s (s.setPlace p .caller)
  | count (p : Skb) (hp : s.place p = .entering) (hcount : s.queue.count ≠ maxQueuedPackets) :
      Move budget s
        ({ s with queue := { s.queue with count := s.queue.count + 1 } }.setPlace p .counted)
  | clearNext (p : Skb) (hp : s.place p = .counted) :
      Move budget s ((s.setNext (.skb p) none).setPlace p .cleared)
  | exchange (p : Skb) (hp : s.place p = .cleared) :
      Move budget s ({ s with
        queue := { s.queue with head := .skb p }
        entered := s.entered ++ [p] }.setPlace p (.linking s.queue.head))
  | link (p : Skb) (prev : Node) (hp : s.place p = .linking prev) :
      Move budget s ((s.setNext prev (some (.skb p))).setPlace p .linked)
  | produce (p : Skb) (cpu : Cpu) (hp : s.place p = .linked) :
      Move budget s
        ({ s with ring := s.ring ++ [some p], wakes := s.wakes ++ [cpu] }.setPlace p .ring)
  | reject (p : Skb) (hp : s.place p = .linked) : Move budget s (s.setPlace p .rejected)
  | kill (p : Skb) (hp : s.place p = .rejected) :
      Move budget s ({ s with
        state := Function.update s.state p .dead
        notifiers := s.notifiers + 1 }.setPlace p .marked)
  | notify (n : Nat) (hn : s.notifiers = n + 1) :
      Move budget s { s with notifiers := n, scheduled := true }
  | wake (cpu : Cpu) :
      Move budget s
        { s with wakes := s.wakes.erase cpu, work := Function.update s.work cpu true }
  | produceOther (cpu : Cpu) :
      Move budget s { s with ring := s.ring ++ [none], wakes := s.wakes ++ [cpu] }
  | startWork (cpu : Cpu) (hw : s.worker cpu = .idle) :
      Move budget s
        ({ s with work := Function.update s.work cpu false }.setWorker cpu .consuming)
  | drained (cpu : Cpu) (hw : s.worker cpu = .consuming) (hring : s.ring = []) :
      Move budget s (s.setWorker cpu .idle)
  | consumeOther (cpu : Cpu) (rest : List (Option Skb)) (hw : s.worker cpu = .consuming)
      (hring : s.ring = none :: rest) :
      Move budget s ({ s with ring := rest }.setWorker cpu (.crypting none))
  | consume (cpu : Cpu) (p : Skb) (rest : List (Option Skb)) (hw : s.worker cpu = .consuming)
      (hring : s.ring = some p :: rest) :
      Move budget s
        (({ s with ring := rest }.setWorker cpu (.crypting (some p))).setPlace p (.crypt cpu))
  | cryptOther (cpu : Cpu) (hw : s.worker cpu = .crypting none) :
      Move budget s (s.setWorker cpu .consuming)
  | crypt (cpu : Cpu) (p : Skb) (result : PacketState) (hw : s.worker cpu = .crypting (some p))
      (hresult : result ≠ .uncrypted) :
      Move budget s (({ s with state := Function.update s.state p result }.setWorker cpu
        .notifying).setPlace p .marked)
  | notifyWork (cpu : Cpu) (hw : s.worker cpu = .notifying) :
      Move budget s ({ s with scheduled := true }.setWorker cpu .consuming)
  | start (hidle : s.consumer = .idle) :
      Move budget s { s with scheduled := false, consumer := .peek, workDone := 0 }
  | consumer (s' : Pipeline) (hmove : ConsumerMove budget s s') : Move budget s s'
  | makeDead : Move budget s { s with isDead := true }

theorem move_of_step {a : Action} (h : step budget s a = some s') : Move budget s s' := by
  cases a with
  | enter p =>
    obtain ⟨hp, h⟩ := Option.ite_none_right_eq_some.mp h
    split at h
    · cases h
      exact .refuse
    · cases h
      exact .enter p hp
  | addUnless p =>
    obtain ⟨hp, h⟩ := Option.ite_none_right_eq_some.mp h
    split at h
    · next hcount =>
      cases h
      exact .full p hp hcount
    · next hcount =>
      cases h
      exact .count p hp hcount
  | clearNext p =>
    obtain ⟨hp, ⟨⟩⟩ := Option.ite_none_right_eq_some.mp h
    exact .clearNext p hp
  | exchange p =>
    obtain ⟨hp, ⟨⟩⟩ := Option.ite_none_right_eq_some.mp h
    exact .exchange p hp
  | link p =>
    simp only [step, Pipeline.link] at h
    split at h
    · next prev hp =>
      cases h
      exact .link p prev hp
    · cases h
  | produce p cpu =>
    obtain ⟨hp, h⟩ := Option.ite_none_right_eq_some.mp h
    split at h
    · cases h
      exact .produce p cpu hp
    · cases h
      exact .reject p hp
  | kill p =>
    obtain ⟨hp, ⟨⟩⟩ := Option.ite_none_right_eq_some.mp h
    exact .kill p hp
  | notify =>
    simp only [step, Pipeline.notify] at h
    split at h
    · cases h
    · next n hn =>
      cases h
      exact .notify n hn
  | wake cpu =>
    obtain ⟨-, ⟨⟩⟩ := Option.ite_none_right_eq_some.mp h
    exact .wake cpu
  | produceOther cpu =>
    obtain ⟨-, ⟨⟩⟩ := Option.ite_none_right_eq_some.mp h
    exact .produceOther cpu
  | startWork cpu =>
    obtain ⟨hw, ⟨⟩⟩ := Option.ite_none_right_eq_some.mp h
    exact .startWork cpu hw.2
  | consume cpu =>
    obtain ⟨hw, h⟩ := Option.ite_none_right_eq_some.mp h
    split at h
    · next hring =>
      cases h
      exact .drained cpu hw hring
    · next rest hring =>
      cases h
      exact .consumeOther cpu rest hw hring
    · next p rest hring =>
      cases h
      exact .consume cpu p rest hw hring
  | crypt cpu ok =>
    simp only [step, Pipeline.crypt] at h
    split at h
    · next hw =>
      cases h
      exact .cryptOther cpu hw
    · next p hw =>
      cases h
      exact .crypt cpu p _ hw (by cases ok <;> simp)
    · cases h
  | notifyWork cpu =>
    obtain ⟨hw, ⟨⟩⟩ := Option.ite_none_right_eq_some.mp h
    exact .notifyWork cpu hw
  | start =>
    obtain ⟨hidle, ⟨⟩⟩ := Option.ite_none_right_eq_some.mp h
    exact .start hidle.2
  | consumerStep => exact .consumer s' (consumerMove_of_step h)
  | makeDead =>
    cases h
    exact .makeDead

end Pipeline

end Queueing

end WgTcp
