import WgTcp.Queueing.Order

/-!
# Nothing stays behind

The counter of a queue counts what is on the queue and what its producers have
reserved, so that the queue is bounded. As long as a packet is on the queue, the
consumer runs, is scheduled, or will be scheduled by a thread that has yet to
mark a packet: when every thread has come to rest, the queue is empty.
-/

namespace WgTcp

namespace Queueing

open LinkedQueue

namespace Pipeline

variable {s s' : Pipeline} {nodes : List Node} {p : Skb} {cpu : Cpu} {budget : Option Nat}

/-! ## The counter -/

/-- A packet that is counted and has not become the head. -/
def Reserved (s : Pipeline) (p : Skb) : Prop := s.place p = .counted ∨ s.place p = .cleared

/-- The counter and the packets that it counts: the reserved ones, and the ones that have entered
and are not with the consumer. -/
structure Counted (s : Pipeline) (reserved : List Skb) : Prop where
  nodup : reserved.Nodup
  mem : ∀ p, p ∈ reserved ↔ s.Reserved p
  count : s.queue.count + s.handled.length + s.queue.peeked.toList.length =
    reserved.length + s.entered.length
  bound : s.queue.count ≤ maxQueuedPackets

theorem counted_init : Counted init [] where
  nodup := List.nodup_nil
  mem := by simp [Reserved, init]
  count := rfl
  bound := by simp [init, PrevQueue.init]

variable {reserved : List Skb}

theorem Counted.congr (h : Counted s reserved) (hcount : s'.queue.count = s.queue.count)
    (hhandled : s'.handled = s.handled) (hpeeked : s'.queue.peeked = s.queue.peeked)
    (hentered : s'.entered = s.entered) (hreserved : ∀ p, s'.Reserved p ↔ s.Reserved p) :
    Counted s' reserved := by
  refine ⟨h.nodup, fun p => (h.mem p).trans (hreserved p).symm, ?_, hcount ▸ h.bound⟩
  rw [hcount, hhandled, hpeeked, hentered]
  exact h.count

/-- A packet moves between places in which it is not reserved. -/
theorem reserved_setPlace {e : Pipeline} {place : Place} (hplace : e.place = s.place)
    (hfrom : ¬ s.Reserved p) (hto : place ≠ .counted ∧ place ≠ .cleared) (q : Skb) :
    (e.setPlace p place).Reserved q ↔ s.Reserved q := by
  by_cases hq : q = p
  · subst hq
    simp only [Reserved, setPlace, Function.update_self, hto.1, hto.2, or_self, false_iff]
    exact hfrom
  · simp [Reserved, setPlace, hq, hplace]

theorem Counted.consumerMove (h : Counted s reserved) (hchain : Chain s nodes) (howned : Owned s)
    (hmove : ConsumerMove budget s s') : Counted s' reserved := by
  have hcount := h.count
  cases hmove with
  | decrement t hc =>
    have hpeeked : s.queue.peeked = none := hchain.working hc
    have hlog := congrArg List.length hchain.log
    have hhand : s.hand = [t] := by simp [Pipeline.hand, hc, hpeeked]
    obtain ⟨q, rfl⟩ : ∃ q, t = .skb q := by
      cases t with
      | stub => exact absurd rfl (hchain.hand .stub (by simp [hhand])).1
      | skb q => exact ⟨q, rfl⟩
    -- The packet in the hand has entered and has not been handled, so it is counted.
    rw [hhand] at hlog
    simp only [List.length_append, List.length_map, List.cons_append, List.nil_append,
      List.filterMap_cons, Node.skb?, List.length_cons] at hlog
    simp only [hpeeked, Option.toList_none, List.length_nil] at hcount
    refine ⟨h.nodup, h.mem, ?_, (Nat.sub_le _ _).trans h.bound⟩
    simp only [Pipeline.decrement, Option.toList_some, List.length_singleton]
    omega
  | handle p hc hstate =>
    have hp := hchain.place_of_check howned hc hstate
    have hpeeked : s.queue.peeked = some (.skb p) := hchain.working hc
    simp only [hpeeked, Option.toList_some, List.length_singleton] at hcount
    refine ⟨h.nodup, fun q => (h.mem q).trans ?_, ?_, ?_⟩
    · by_cases hq : q = p
      · simp [Reserved, hq, hp]
      · simp [Reserved, hq]
    · simp only [handle_fields, List.length_append, List.length_singleton, Option.toList_none,
        List.length_nil]
      omega
    · simpa using h.bound
  | _ => exact h.congr rfl rfl rfl rfl fun _ => .rfl

theorem Counted.move (h : Counted s reserved) (hchain : Chain s nodes) (howned : Owned s)
    (hmove : Move budget s s') : ∃ reserved', Counted s' reserved' := by
  have hcount := h.count
  have hshift {e : Pipeline} {p : Skb} {place : Place} (hcount : e.queue.count = s.queue.count)
      (hhandled : e.handled = s.handled) (hpeeked : e.queue.peeked = s.queue.peeked)
      (hentered : e.entered = s.entered) (hplace : e.place = s.place) (hfrom : ¬ s.Reserved p)
      (hto : place ≠ .counted ∧ place ≠ .cleared) :
      ∃ reserved', Counted (e.setPlace p place) reserved' :=
    ⟨reserved, h.congr hcount hhandled hpeeked hentered (reserved_setPlace hplace hfrom hto)⟩
  cases hmove with
  | count p hp hne =>
    have hnew : p ∉ reserved := by
      rw [h.mem, Reserved, hp]
      simp
    refine ⟨p :: reserved, List.nodup_cons.mpr ⟨hnew, h.nodup⟩, fun q => ?_, ?_, ?_⟩
    · rw [List.mem_cons, h.mem]
      by_cases hq : q = p
      · simp [Reserved, setPlace, hq]
      · simp [Reserved, setPlace, hq]
    · simp only [setPlace, List.length_cons]
      omega
    · have hbound := h.bound
      simp only [setPlace]
      omega
  | clearNext p hp =>
    refine ⟨reserved, h.congr rfl rfl rfl rfl fun q => ?_⟩
    by_cases hq : q = p
    · simp [Reserved, setPlace, hq, hp]
    · simp [Reserved, setPlace, setNext, hq]
  | exchange p hp =>
    have hmem : p ∈ reserved := (h.mem p).mpr (.inr hp)
    refine ⟨reserved.erase p, h.nodup.erase p, fun q => ?_, ?_, h.bound⟩
    · rw [h.nodup.mem_erase_iff, h.mem]
      by_cases hq : q = p
      · simp [Reserved, setPlace, hq]
      · simp [Reserved, setPlace, hq]
    · have hlength := List.length_erase_of_mem hmem
      have hpos := List.length_pos_of_mem hmem
      simp only [setPlace, List.length_append, List.length_singleton]
      omega
  | consumer _ hmove => exact ⟨reserved, h.consumerMove hchain howned hmove⟩
  | enter p hp => exact hshift rfl rfl rfl rfl rfl (by simp [Reserved, hp]) (by simp)
  | full p hp _ => exact hshift rfl rfl rfl rfl rfl (by simp [Reserved, hp]) (by simp)
  | link p prev hp => exact hshift rfl rfl rfl rfl rfl (by simp [Reserved, hp]) (by simp)
  | produce p cpu hp => exact hshift rfl rfl rfl rfl rfl (by simp [Reserved, hp]) (by simp)
  | reject p hp => exact hshift rfl rfl rfl rfl rfl (by simp [Reserved, hp]) (by simp)
  | kill p hp => exact hshift rfl rfl rfl rfl rfl (by simp [Reserved, hp]) (by simp)
  | consume cpu p rest hw hring =>
    have hp : s.place p = .ring := (howned.each p).ring.mp (by simp [hring])
    exact hshift rfl rfl rfl rfl rfl (by simp [Reserved, hp]) (by simp)
  | crypt cpu p result hw hresult =>
    have hp := ((howned.each p).worker cpu).mp hw
    exact hshift rfl rfl rfl rfl rfl (by simp [Reserved, hp]) (by simp)
  | _ => exact ⟨reserved, h.congr rfl rfl rfl rfl fun _ => .rfl⟩

/-! ## The consumer is called -/

/-- Some thread will call the consumer: it is scheduled, a thread is about to schedule it, or a
packet on the queue has yet to be marked. -/
def Stirring (s : Pipeline) : Prop :=
  s.scheduled = true ∨ s.notifiers ≠ 0 ∨ (∃ cpu, s.worker cpu = .notifying) ∨
    ∃ p, (s.place p).inside = true ∧ (s.place p).unmarked = true

/-- What the consumer relies on while it looks for packets and when it has come to rest. -/
def Attended (s : Pipeline) : Prop :=
  match s.consumer with
  | .idle => s.Stirring ∨ s.entered = s.handled.map Prod.fst
  | .compare t => s.Stirring ∨ s.queue.head = t
  | _ => True

structure Awake (s : Pipeline) : Prop where
  ring : s.ring ≠ [] → ∃ cpu, cpu ∈ s.wakes ∨ s.work cpu = true ∨ s.worker cpu ≠ .idle
  consumer : s.Attended

theorem awake_init : Awake init := ⟨by simp [init], .inr rfl⟩

/-- A packet on the queue that is not marked keeps the machine busy. -/
theorem Stirring.of_place (hinside : (s.place p).inside = true)
    (hunmarked : (s.place p).unmarked = true) : s.Stirring :=
  .inr (.inr (.inr ⟨p, hinside, hunmarked⟩))

/-- A missing link is written by a thread whose packet is not marked. -/
theorem Stirring.of_pending {a b : Node} (h : s.Pending a b)
    (hc : ∀ t, s.consumer ≠ .linkStub t a) : s.Stirring := by
  rcases h with ⟨p, -, hp⟩ | ⟨-, t, ht⟩
  · exact .of_place (p := p) (by rw [hp]; rfl) (by rw [hp]; rfl)
  · exact absurd ht (hc t)

theorem Attended.of_stirring (h : s.Stirring) : s.Attended := by
  unfold Attended
  split
  · exact .inl h
  · exact .inl h
  · trivial

/-- A step that the consumer has no part in. -/
theorem Attended.congr (h : s.Attended) (hconsumer : s'.consumer = s.consumer)
    (hentered : s'.entered = s.entered) (hhandled : s'.handled = s.handled)
    (hhead : s'.queue.head = s.queue.head) (hstirring : s.Stirring → s'.Stirring) :
    s'.Attended := by
  unfold Attended at h ⊢
  rw [hconsumer, hentered, hhandled, hhead]
  split
  · next hc =>
    rw [hc] at h
    exact h.imp_left hstirring
  · next t hc =>
    rw [hc] at h
    exact h.imp_left hstirring
  · trivial

theorem Stirring.imp (h : s.Stirring) (hscheduled : s'.scheduled = s.scheduled)
    (hnotifiers : s'.notifiers = s.notifiers)
    (hworker : ∀ cpu, s.worker cpu = .notifying → s'.worker cpu = .notifying)
    (hplace : ∀ p, (s.place p).inside = true ∧ (s.place p).unmarked = true →
      s'.place p = s.place p) : s'.Stirring := by
  rcases h with h | h | ⟨cpu, h⟩ | ⟨q, hq⟩
  · exact .inl (hscheduled.trans h)
  · exact .inr (.inl (hnotifiers ▸ h))
  · exact .inr (.inr (.inl ⟨cpu, hworker cpu h⟩))
  · exact .inr (.inr (.inr ⟨q, (hplace q hq).symm ▸ hq⟩))

/-- A packet that is not on the queue moves. -/
theorem Stirring.setPlace (h : s.Stirring) {e : Pipeline} {place : Place}
    (hscheduled : e.scheduled = s.scheduled) (hnotifiers : e.notifiers = s.notifiers)
    (hworker : e.worker = s.worker) (hplace : e.place = s.place)
    (hp : (s.place p).inside = false) : (e.setPlace p place).Stirring := by
  refine h.imp hscheduled hnotifiers (fun cpu hw => hworker ▸ hw) fun q hq => ?_
  have hne : q ≠ p := by
    rintro rfl
    rw [hp] at hq
    cases hq.1
  simp [Pipeline.setPlace, hne, hplace]

/-- A worker that is not about to schedule the consumer changes. -/
theorem Stirring.setWorker (h : s.Stirring) {e : Pipeline} {w : Worker}
    (hscheduled : e.scheduled = s.scheduled) (hnotifiers : e.notifiers = s.notifiers)
    (hworker : e.worker = s.worker) (hplace : e.place = s.place)
    (hw : s.worker cpu ≠ .notifying) : (e.setWorker cpu w).Stirring := by
  refine h.imp hscheduled hnotifiers (fun c hc => ?_) fun _ _ => congrFun hplace _
  have hne : c ≠ cpu := by
    rintro rfl
    exact hw hc
  simpa [Pipeline.setWorker, hne, hworker] using hc

/-- The consumer comes to rest only when the queue is empty or somebody will call it. -/
theorem Attended.consumerMove (h : s.Attended) (hchain : Chain s nodes) (howned : Owned s)
    (hmove : ConsumerMove budget s s') : s'.Attended := by
  cases hmove with
  | recheck first hc hpeeked => trivial
  | dequeue hc hpeeked => trivial
  | empty hc htail hnext =>
    have hpeeked : s.queue.peeked = none := hchain.working hc
    obtain ⟨rest, rfl⟩ := List.head?_eq_some_iff.mp (htail ▸ hchain.tail)
    rcases hchain.linked.of_next_eq_none hnext with rfl | ⟨b, rest, rfl, hpend⟩
    · refine .inr (hchain.log.trans ?_)
      simp [Pipeline.hand, hc, hpeeked, Node.skb?, Pipeline.setConsumer]
    · have hstirring : s.Stirring := .of_pending hpend (by simp [hc])
      exact .inl hstirring
  | skipStub n hc htail hnext => trivial
  | take t n hc hnext => trivial
  | alone t hc hnext =>
    obtain ⟨⟨-, htail, -⟩, hplain⟩ := hchain.beforeNext hc
    obtain ⟨rest, rfl⟩ := List.head?_eq_some_iff.mp (htail ▸ hchain.tail)
    rcases hchain.linked.of_next_eq_none hnext with rfl | ⟨b, rest, rfl, hpend⟩
    · exact .inr (Option.some.inj hchain.head).symm
    · have hstirring : s.Stirring := .of_pending hpend fun u => (hplain u t).2
      exact .inl hstirring
  | behind t hc hhead =>
    unfold Attended at h
    rw [hc] at h
    exact .inl (h.resolve_right (Ne.symm hhead))
  | ahead t hc hhead => trivial
  | clearStub t hc => trivial
  | exchangeStub t hc => trivial
  | linkStub t prev hc => trivial
  | missing t hc hnext =>
    obtain ⟨-, htail, ht, hstub⟩ := hchain.working hc
    -- The stub is behind the tail, so the missing link is the one of a producer.
    obtain ⟨rest, rfl⟩ := List.head?_eq_some_iff.mp (htail ▸ hchain.tail)
    rcases hchain.linked.of_next_eq_none hnext with rfl | ⟨b, rest, rfl, hpend⟩
    · exact absurd (List.mem_singleton.mp hstub).symm ht
    · have hstirring : s.Stirring := .of_pending hpend (by simp [hc])
      exact .inl hstirring
  | decrement t hc => trivial
  | wait p hc hstate =>
    have hpeeked : s.queue.peeked = some (.skb p) := hchain.working hc
    have hinside := (hchain.inside p).mpr (by simp [Pipeline.hand, hc, hpeeked])
    refine .inl (Stirring.of_place (p := p) hinside ?_)
    by_contra hmarked
    exact (howned.each p).marked (Place.eq_marked hinside hmarked) hstate
  | handle p hc hstate =>
    rcases handle_consumer s budget p with hc' | ⟨-, hscheduled⟩
    · simp [Attended, hc']
    · exact .of_stirring (.inl hscheduled)

theorem Awake.move (h : Awake s) (hchain : Chain s nodes) (howned : Owned s)
    (hmove : Move budget s s') : Awake s' := by
  have hstill {e : Pipeline} (hring : e.ring = s.ring) (hwakes : e.wakes = s.wakes)
      (hwork : e.work = s.work) (hworker : e.worker = s.worker) (he : e.ring ≠ []) :
      ∃ cpu, cpu ∈ e.wakes ∨ e.work cpu = true ∨ e.worker cpu ≠ .idle := by
    rw [hwakes, hwork, hworker]
    exact h.ring (hring ▸ he)
  cases hmove with
  | refuse => exact h
  | enter p hp =>
    refine ⟨hstill rfl rfl rfl rfl, h.consumer.congr rfl rfl rfl rfl fun hs => ?_⟩
    exact hs.setPlace rfl rfl rfl rfl (by rw [hp]; rfl)
  | full p hp hcount =>
    refine ⟨hstill rfl rfl rfl rfl, h.consumer.congr rfl rfl rfl rfl fun hs => ?_⟩
    exact hs.setPlace rfl rfl rfl rfl (by rw [hp]; rfl)
  | count p hp hcount =>
    refine ⟨hstill rfl rfl rfl rfl, h.consumer.congr rfl rfl rfl rfl fun hs => ?_⟩
    exact hs.setPlace rfl rfl rfl rfl (by rw [hp]; rfl)
  | clearNext p hp =>
    refine ⟨hstill rfl rfl rfl rfl, h.consumer.congr rfl rfl rfl rfl fun hs => ?_⟩
    exact hs.setPlace rfl rfl rfl rfl (by rw [hp]; rfl)
  | exchange p hp =>
    refine ⟨hstill rfl rfl rfl rfl, .of_stirring (.of_place (p := p) ?_ ?_)⟩ <;>
      simp [Pipeline.setPlace, Place.inside, Place.unmarked]
  | link p prev hp =>
    refine ⟨hstill rfl rfl rfl rfl, .of_stirring (.of_place (p := p) ?_ ?_)⟩ <;>
      simp [Pipeline.setPlace, Place.inside, Place.unmarked]
  | produce p cpu hp =>
    refine ⟨fun _ => ⟨cpu, .inl ?_⟩, .of_stirring (.of_place (p := p) ?_ ?_)⟩ <;>
      simp [Pipeline.setPlace, Place.inside, Place.unmarked]
  | reject p hp =>
    refine ⟨hstill rfl rfl rfl rfl, .of_stirring (.of_place (p := p) ?_ ?_)⟩ <;>
      simp [Pipeline.setPlace, Place.inside, Place.unmarked]
  | kill p hp => exact ⟨hstill rfl rfl rfl rfl, .of_stirring (.inr (.inl (Nat.succ_ne_zero _)))⟩
  | notify n hn => exact ⟨hstill rfl rfl rfl rfl, .of_stirring (.inl rfl)⟩
  | wake cpu =>
    refine ⟨fun hring => ?_, h.consumer.congr rfl rfl rfl rfl id⟩
    obtain ⟨c, hc⟩ := h.ring hring
    by_cases hcpu : c = cpu
    · exact ⟨cpu, .inr (.inl (Function.update_self ..))⟩
    · exact ⟨c, by simpa [List.mem_erase_of_ne hcpu, hcpu] using hc⟩
  | produceOther cpu =>
    exact ⟨fun _ => ⟨cpu, .inl (by simp)⟩, h.consumer.congr rfl rfl rfl rfl id⟩
  | startWork cpu hw =>
    refine ⟨fun _ => ⟨cpu, .inr (.inr (by simp [Pipeline.setWorker]))⟩,
      h.consumer.congr rfl rfl rfl rfl fun hs => ?_⟩
    exact hs.setWorker rfl rfl rfl rfl (by simp [hw])
  | drained cpu hw hring =>
    refine ⟨fun hne => absurd hring hne, h.consumer.congr rfl rfl rfl rfl fun hs => ?_⟩
    exact hs.setWorker rfl rfl rfl rfl (by simp [hw])
  | consumeOther cpu rest hw hring =>
    refine ⟨fun _ => ⟨cpu, .inr (.inr (by simp [Pipeline.setWorker]))⟩,
      h.consumer.congr rfl rfl rfl rfl fun hs => ?_⟩
    exact hs.setWorker rfl rfl rfl rfl (by simp [hw])
  | consume cpu p rest hw hring =>
    refine ⟨fun _ => ⟨cpu, .inr (.inr ?_)⟩, .of_stirring (.of_place (p := p) ?_ ?_)⟩ <;>
      simp [Pipeline.setPlace, Pipeline.setWorker, Place.inside, Place.unmarked]
  | cryptOther cpu hw =>
    refine ⟨fun _ => ⟨cpu, .inr (.inr (by simp [Pipeline.setWorker]))⟩,
      h.consumer.congr rfl rfl rfl rfl fun hs => ?_⟩
    exact hs.setWorker rfl rfl rfl rfl (by simp [hw])
  | crypt cpu p result hw hresult =>
    refine ⟨fun _ => ⟨cpu, .inr (.inr ?_)⟩, .of_stirring (.inr (.inr (.inl ⟨cpu, ?_⟩)))⟩ <;>
      simp [Pipeline.setPlace, Pipeline.setWorker]
  | notifyWork cpu hw =>
    exact ⟨fun _ => ⟨cpu, .inr (.inr (by simp [Pipeline.setWorker]))⟩, .of_stirring (.inl rfl)⟩
  | start hidle => exact ⟨hstill rfl rfl rfl rfl, trivial⟩
  | consumer _ hmove =>
    refine ⟨?_, h.consumer.consumerMove hchain howned hmove⟩
    cases hmove with
    | handle p hc hstate =>
      obtain ⟨-, -, -, -, hring, hworker, -, hwakes, hwork⟩ := handle_fields s budget p
      exact hstill hring hwakes hwork hworker
    | _ => exact hstill rfl rfl rfl rfl
  | makeDead => exact ⟨hstill rfl rfl rfl rfl, h.consumer.congr rfl rfl rfl rfl id⟩

/-! ## Runs -/

/-- All invariants. -/
structure Sound (s : Pipeline) : Prop where
  kept : Kept s
  counted : ∃ reserved, Counted s reserved
  awake : Awake s

theorem Sound.move (h : Sound s) (hmove : Move budget s s') : Sound s' := by
  obtain ⟨nodes, hchain⟩ := h.kept.chain
  obtain ⟨reserved, hcounted⟩ := h.counted
  exact ⟨h.kept.move hmove, hcounted.move hchain h.kept.owned hmove,
    h.awake.move hchain h.kept.owned hmove⟩

theorem sound_run {as : List Action} (h : Transition.run (step budget) init as = some s) :
    Sound s :=
  Transition.run_invariant (fun _ _ _ hs hstep => hs.move (move_of_step hstep))
    ⟨kept_init, ⟨_, counted_init⟩, awake_init⟩ h

/-- The counter never exceeds its limit, and no more packets than the limit and the one that the
consumer looks at have entered and not been taken. -/
theorem queue_bounded {as : List Action} (h : Transition.run (step budget) init as = some s) :
    s.queue.count ≤ maxQueuedPackets ∧
      s.entered.length ≤ s.handled.length + maxQueuedPackets + 1 := by
  obtain ⟨reserved, hcounted⟩ := (sound_run h).counted
  have hcount := hcounted.count
  have hbound := hcounted.bound
  have hpeeked : s.queue.peeked.toList.length ≤ 1 := by
    cases s.queue.peeked <;> simp
  exact ⟨hbound, by omega⟩

theorem queue_bounded_crossing :
    ∃ s, Transition.run (step none) init (crossing.take 10) = some s ∧ s.queue.count = 2 ∧
      s.queue.count ≤ maxQueuedPackets := by
  obtain ⟨s, hrun, hcheck⟩ := Transition.exists_run_of_any (by decide +kernel :
    (Transition.run (step none) init (crossing.take 10)).any
      (fun s => decide (s.queue.count = 2)) = true)
  exact ⟨s, hrun, of_decide_eq_true hcheck, (queue_bounded hrun).1⟩

/-- The steps of threads that are in the pipeline. -/
def Action.internal : Action → Bool
  | .enter _ | .produceOther _ | .makeDead => false
  | _ => true

/-- The consumer is never stuck; in particular the stub is never taken for a packet. -/
theorem Chain.consumerStep_ne_none (h : Chain s nodes) (hc : s.consumer ≠ .idle) :
    s.consumerStep budget ≠ none := by
  unfold Pipeline.consumerStep
  split
  · next hidle => exact absurd hidle hc
  · split <;> simp
  · split <;> simp
  · split <;> simp
  · split <;> simp
  · simp
  · simp
  · simp
  · split <;> simp
  · simp
  · next hcheck =>
    have hpeeked : s.queue.peeked = some .stub := h.working hcheck
    have hstub := (h.hand .stub (by simp [Pipeline.hand, hcheck, hpeeked])).1
    exact absurd rfl hstub
  · split <;> simp

/-- When no thread in the pipeline can go on, every packet that entered has been taken, and the
queue is as it was before the first one. -/
theorem nothing_stays_behind {as : List Action}
    (h : Transition.run (step budget) init as = some s)
    (hrest : ∀ a, a.internal = true → s.step budget a = none) :
    s.entered = s.handled.map Prod.fst ∧ s.queue.count = 0 ∧ s.queue.peeked = none := by
  obtain ⟨⟨⟨nodes, hchain⟩, howned⟩, ⟨reserved, hcounted⟩, hawake⟩ := sound_run h
  have hworker (cpu : Cpu) : s.worker cpu = .idle := by
    cases hw : s.worker cpu with
    | idle => rfl
    | consuming =>
      have hnone := hrest (.consume cpu) rfl
      simp only [Pipeline.step, Pipeline.consume, hw, if_true] at hnone
      split at hnone <;> cases hnone
    | crypting skb =>
      have hnone := hrest (.crypt cpu true) rfl
      cases skb <;> simp [Pipeline.step, Pipeline.crypt, hw] at hnone
    | notifying =>
      have hnone := hrest (.notifyWork cpu) rfl
      simp [Pipeline.step, Pipeline.notifyWork, hw] at hnone
  have hring : s.ring = [] := by
    by_contra hring
    obtain ⟨cpu, hwake | hwork | hbusy⟩ := hawake.ring hring
    · have hnone := hrest (.wake cpu) rfl
      simp [Pipeline.step, Pipeline.wake, hwake] at hnone
    · have hnone := hrest (.startWork cpu) rfl
      simp [Pipeline.step, Pipeline.startWork, hwork, hworker] at hnone
    · exact hbusy (hworker cpu)
  have hplace (p : Skb) : s.place p = .caller ∨ s.place p = .marked := by
    cases hp : s.place p with
    | caller => exact .inl rfl
    | marked => exact .inr rfl
    | entering =>
      have hnone := hrest (.addUnless p) rfl
      simp only [Pipeline.step, Pipeline.addUnless, hp, if_true] at hnone
      split at hnone <;> cases hnone
    | counted =>
      have hnone := hrest (.clearNext p) rfl
      simp [Pipeline.step, Pipeline.clearNext, hp] at hnone
    | cleared =>
      have hnone := hrest (.exchange p) rfl
      simp [Pipeline.step, Pipeline.exchange, hp] at hnone
    | linking prev =>
      have hnone := hrest (.link p) rfl
      simp [Pipeline.step, Pipeline.link, hp] at hnone
    | linked =>
      have hnone := hrest (.produce p 0) rfl
      simp only [Pipeline.step, Pipeline.produce, hp, if_true] at hnone
      split at hnone <;> cases hnone
    | rejected =>
      have hnone := hrest (.kill p) rfl
      simp [Pipeline.step, Pipeline.kill, hp] at hnone
    | ring =>
      have hmem := (howned.each p).ring.mpr hp
      simp [hring] at hmem
    | crypt cpu =>
      have hbusy := ((howned.each p).worker cpu).mpr hp
      simp [hworker] at hbusy
  have hidle : s.consumer = .idle := by
    by_contra hc
    exact hchain.consumerStep_ne_none hc (hrest .consumerStep rfl)
  have hstirring : ¬ s.Stirring := by
    rintro (hscheduled | hnotifiers | ⟨cpu, hw⟩ | ⟨p, -, hunmarked⟩)
    · have hnone := hrest .start rfl
      simp [Pipeline.step, Pipeline.start, hscheduled, hidle] at hnone
    · obtain ⟨n, hn⟩ := Nat.exists_eq_succ_of_ne_zero hnotifiers
      have hnone := hrest .notify rfl
      simp [Pipeline.step, Pipeline.notify, hn] at hnone
    · rw [hworker] at hw
      cases hw
    · rcases hplace p with hp | hp <;> rw [hp] at hunmarked <;> cases hunmarked
  have hlog : s.entered = s.handled.map Prod.fst := by
    have hattended := hawake.consumer
    unfold Attended at hattended
    rw [hidle] at hattended
    exact hattended.resolve_left hstirring
  have hreserved : reserved = [] := by
    rw [List.eq_nil_iff_forall_not_mem]
    intro p hp
    rcases (hcounted.mem p).mp hp with hp | hp <;> rcases hplace p with hq | hq <;>
      rw [hp] at hq <;> cases hq
  have hcount := hcounted.count
  rw [hreserved, hlog, List.length_map, List.length_nil] at hcount
  refine ⟨hlog, by omega, ?_⟩
  cases hpeeked : s.queue.peeked with
  | none => rfl
  | some t =>
    rw [hpeeked] at hcount
    simp only [Option.toList_some, List.length_singleton] at hcount
    omega

/-- One packet on its way through the pipeline, until all threads rest. -/
def single : List Action :=
  [.enter 0, .addUnless 0, .clearNext 0, .exchange 0, .link 0, .produce 0 0, .wake 0, .startWork 0,
    .consume 0, .crypt 0 true, .notifyWork 0, .consume 0, .start] ++
    List.replicate 12 .consumerStep

def atRest : Pipeline := (Transition.run (step none) init single).getD init

theorem nothing_stays_behind_single :
    Transition.run (step none) init single = some atRest ∧ atRest.entered = [0] ∧
      atRest.handled.map Prod.fst = [0] ∧ atRest.queue.count = 0 := by
  have hrun : Transition.run (step none) init single = some atRest := by
    obtain ⟨s, hs⟩ := Option.isSome_iff_exists.mp
      (by decide +kernel : (Transition.run (step none) init single).isSome)
    rw [atRest, hs]
    rfl
  have hplace (p : Skb) : atRest.place p = .caller := by
    rcases p with _ | p <;> rfl
  have hworker (cpu : Cpu) : atRest.worker cpu = .idle := by
    rcases cpu with _ | cpu <;> rfl
  have hwork (cpu : Cpu) : atRest.work cpu = false := by
    rcases cpu with _ | cpu <;> rfl
  have hwakes : atRest.wakes = [] := by rfl
  have hnotifiers : atRest.notifiers = 0 := by rfl
  have hscheduled : atRest.scheduled = false := by rfl
  have hconsumer : atRest.consumer = .idle := by rfl
  obtain ⟨hentered, hcount, -⟩ := nothing_stays_behind hrun fun a ha => by
    cases a <;> simp_all [Action.internal, Pipeline.step, Pipeline.addUnless, Pipeline.clearNext,
      Pipeline.exchange, Pipeline.link, Pipeline.produce, Pipeline.kill, Pipeline.notify,
      Pipeline.wake, Pipeline.startWork, Pipeline.consume, Pipeline.crypt, Pipeline.notifyWork,
      Pipeline.start, Pipeline.consumerStep]
  have hone : atRest.entered = [0] := by rfl
  exact ⟨hrun, hone, hentered ▸ hone, hcount⟩

/-! ## A dequeueing alone -/

/-- The consumer at work alone. -/
def Dequeues (budget : Option Nat) (k : Nat) (s s' : Pipeline) : Prop :=
  Transition.run (step budget) s (List.replicate k .consumerStep) = some s'

theorem Dequeues.cons {k : Nat} {t : Pipeline} (hstep : s.consumerStep budget = some t)
    (h : Dequeues budget k t s') : Dequeues budget (k + 1) s s' :=
  Transition.run_cons_eq_some.mpr ⟨t, hstep, h⟩

end Pipeline

end Queueing

end WgTcp
