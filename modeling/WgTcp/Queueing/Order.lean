import WgTcp.Queueing.Chain

/-!
# Packets leave in the order in which they entered

The places of packets agree with the ring, with the workers and with the states
of the packets. So the consumer, which waits for the first packet of the queue to
be marked, takes packets that nobody else has any more, in the order in which
they became the head of the queue and not in the order in which the workers were
done with them.
-/

namespace WgTcp

namespace Queueing

open LinkedQueue

/-- Places of packets of which the state has not been set. -/
def Place.unmarked : Place → Bool
  | .caller | .marked => false
  | _ => true

theorem Place.eq_marked {place : Place} (hinside : place.inside = true)
    (hmarked : ¬ place.unmarked = true) : place = .marked := by
  cases place <;> simp_all [Place.inside, Place.unmarked]

namespace Pipeline

variable {s s' : Pipeline} {nodes : List Node} {p : Skb} {cpu : Cpu} {budget : Option Nat}

/-- A packet is where its place says. -/
structure OwnedAt (s : Pipeline) (p : Skb) : Prop where
  ring : some p ∈ s.ring ↔ s.place p = .ring
  worker : ∀ cpu, s.worker cpu = .crypting (some p) ↔ s.place p = .crypt cpu
  unmarked : (s.place p).unmarked = true → s.state p = .uncrypted
  marked : s.place p = .marked → s.state p ≠ .uncrypted

structure Owned (s : Pipeline) : Prop where
  each : ∀ p, OwnedAt s p
  ringOnce : (s.ring.filterMap id).Nodup

theorem owned_init : Owned init := by
  refine ⟨fun p => ⟨?_, ?_, ?_, ?_⟩, List.nodup_nil⟩ <;> simp [init]

theorem OwnedAt.congr (h : OwnedAt s p) (hplace : s'.place p = s.place p)
    (hring : some p ∈ s'.ring ↔ some p ∈ s.ring)
    (hworker : ∀ cpu, s'.worker cpu = .crypting (some p) ↔ s.worker cpu = .crypting (some p))
    (hstate : s'.state p = s.state p) : OwnedAt s' p := by
  refine ⟨?_, fun cpu => ?_, ?_, ?_⟩
  · rw [hplace, hring, h.ring]
  · rw [hplace, hworker, h.worker]
  · rw [hplace, hstate]
    exact h.unmarked
  · rw [hplace, hstate]
    exact h.marked

/-- Neither the ring, the workers nor the states change. -/
theorem Owned.congr (h : Owned s) (hplace : s'.place = s.place) (hring : s'.ring = s.ring)
    (hworker : s'.worker = s.worker) (hstate : s'.state = s.state) : Owned s' := by
  refine ⟨fun p => (h.each p).congr ?_ ?_ ?_ ?_, hring ▸ h.ringOnce⟩
  · rw [hplace]
  · rw [hring]
  · simp [hworker]
  · rw [hstate]

/-- One packet moves, and all else stays where it is. -/
theorem Owned.move (h : Owned s) (p : Skb) (hp : OwnedAt s' p)
    (honce : (s'.ring.filterMap id).Nodup)
    (hothers : ∀ q, q ≠ p → s'.place q = s.place q ∧ (some q ∈ s'.ring ↔ some q ∈ s.ring) ∧
      (∀ cpu, s'.worker cpu = .crypting (some q) ↔ s.worker cpu = .crypting (some q)) ∧
      s'.state q = s.state q) : Owned s' := by
  refine ⟨fun q => ?_, honce⟩
  by_cases hq : q = p
  · exact hq ▸ hp
  · obtain ⟨hplace, hring, hworker, hstate⟩ := hothers q hq
    exact (h.each q).congr hplace hring hworker hstate

/-- A packet moves among the places of its producer and its consumer. -/
theorem Owned.setPlace (h : Owned s) {place : Place}
    (hplace : s'.place = Function.update s.place p place) (hring : s'.ring = s.ring)
    (hworker : s'.worker = s.worker) (hstate : s'.state = s.state)
    (hfrom : s.place p ≠ .ring ∧ ∀ cpu, s.place p ≠ .crypt cpu)
    (hto : place ≠ .ring ∧ ∀ cpu, place ≠ .crypt cpu)
    (hunmarked : place.unmarked = true → s.state p = .uncrypted) (hmarked : place ≠ .marked) :
    Owned s' := by
  have hp := h.each p
  refine h.move p ⟨?_, ?_, ?_, ?_⟩ (hring ▸ h.ringOnce) fun q hq => ⟨?_, ?_, ?_, ?_⟩
  · simp [hplace, hring, hp.ring, hfrom.1, hto.1]
  · simp [hplace, hworker, hp.worker, hfrom.2, hto.2]
  · simpa [hplace, hstate] using hunmarked
  · simp [hplace, hmarked]
  · simp [hplace, hq]
  · simp [hring]
  · simp [hworker]
  · simp [hstate]

theorem Owned.enter (h : Owned s) (hp : s.place p = .caller) :
    Owned ({ s with state := Function.update s.state p .uncrypted }.setPlace p .entering) := by
  refine h.move p ⟨?_, ?_, ?_, ?_⟩ h.ringOnce fun q hq => ⟨?_, .rfl, fun _ => .rfl, ?_⟩
  · simp [Pipeline.setPlace, (h.each p).ring, hp]
  · simp [Pipeline.setPlace, (h.each p).worker, hp]
  · simp [Pipeline.setPlace]
  · simp [Pipeline.setPlace]
  · simp [Pipeline.setPlace, hq]
  · simp [Pipeline.setPlace, hq]

theorem Owned.produce (h : Owned s) (hp : s.place p = .linked) (wakes : List Cpu) :
    Owned ({ s with ring := s.ring ++ [some p], wakes := wakes }.setPlace p .ring) := by
  have hmem : some p ∉ s.ring := by simp [(h.each p).ring, hp]
  refine h.move p ⟨?_, ?_, fun _ => (h.each p).unmarked (by rw [hp]; rfl), ?_⟩ ?_
    fun q hq => ⟨?_, ?_, fun _ => .rfl, rfl⟩
  · simp [Pipeline.setPlace]
  · simp [Pipeline.setPlace, (h.each p).worker, hp]
  · simp [Pipeline.setPlace]
  · change ((s.ring ++ [some p]).filterMap id).Nodup
    rw [List.filterMap_append]
    refine h.ringOnce.append (List.nodup_singleton p) ?_
    simpa using hmem
  · simp [Pipeline.setPlace, hq]
  · simp [Pipeline.setPlace, hq]

theorem Owned.kill (h : Owned s) (hp : s.place p = .rejected) (n : Nat) :
    Owned ({ s with
      state := Function.update s.state p .dead
      notifiers := n }.setPlace p .marked) := by
  refine h.move p ⟨?_, ?_, ?_, ?_⟩ h.ringOnce fun q hq => ⟨?_, .rfl, fun _ => .rfl, ?_⟩
  · simp [Pipeline.setPlace, (h.each p).ring, hp]
  · simp [Pipeline.setPlace, (h.each p).worker, hp]
  · simp [Pipeline.setPlace, Place.unmarked]
  · simp [Pipeline.setPlace]
  · simp [Pipeline.setPlace, hq]
  · simp [Pipeline.setPlace, hq]

/-- A worker that has no packet changes to another such state. -/
theorem Owned.setWorker (h : Owned s) {w : Worker} (hfrom : ∀ p, s.worker cpu ≠ .crypting (some p))
    (hto : ∀ p, w ≠ .crypting (some p)) (hplace : s'.place = s.place)
    (hring : ∀ p, some p ∈ s'.ring ↔ some p ∈ s.ring) (honce : (s'.ring.filterMap id).Nodup)
    (hworker : s'.worker = Function.update s.worker cpu w) (hstate : s'.state = s.state) :
    Owned s' := by
  refine ⟨fun p => (h.each p).congr (congrFun hplace p) (hring p) (fun c => ?_)
    (congrFun hstate p), honce⟩
  by_cases hc : c = cpu
  · simp [hworker, hc, hfrom p, hto p]
  · simp [hworker, hc]

/-- What the other packets have of the worker of a packet. -/
theorem setWorker_other {e : Pipeline} {w w' : Worker} (hworker : e.worker = s.worker)
    (hw : s.worker cpu = w) {q : Skb} (hq : w ≠ .crypting (some q) ∧ w' ≠ .crypting (some q))
    (c : Cpu) : (e.setWorker cpu w').worker c = .crypting (some q) ↔
      s.worker c = .crypting (some q) := by
  by_cases hc : c = cpu
  · simp [Pipeline.setWorker, hc, hw, hq]
  · simp [Pipeline.setWorker, hc, hworker]

theorem Owned.consume (h : Owned s) {rest : List (Option Skb)} (hring : s.ring = some p :: rest)
    (hw : s.worker cpu = .consuming) :
    Owned (({ s with ring := rest }.setWorker cpu (.crypting (some p))).setPlace p
      (.crypt cpu)) := by
  have hp : s.place p = .ring := (h.each p).ring.mp (by simp [hring])
  have honce : (p :: rest.filterMap id).Nodup := by
    have honce := h.ringOnce
    rw [hring] at honce
    exact honce
  rw [List.nodup_cons] at honce
  refine h.move p ⟨?_, fun c => ?_, fun _ => (h.each p).unmarked (by rw [hp]; rfl), ?_⟩ honce.2
    fun q hq => ⟨?_, ?_, setWorker_other rfl hw (by simp [Ne.symm hq]), rfl⟩
  · simpa [Pipeline.setPlace, Pipeline.setWorker] using honce.1
  · by_cases hc : c = cpu
    · simp [Pipeline.setPlace, Pipeline.setWorker, hc]
    · simp [Pipeline.setPlace, Pipeline.setWorker, hc, (h.each p).worker, hp, Ne.symm hc]
  · simp [Pipeline.setPlace]
  · simp [Pipeline.setPlace, Pipeline.setWorker, hq]
  · simp [Pipeline.setPlace, Pipeline.setWorker, hring, hq]

theorem Owned.crypt (h : Owned s) (hw : s.worker cpu = .crypting (some p)) {result : PacketState}
    (hresult : result ≠ .uncrypted) :
    Owned (({ s with state := Function.update s.state p result }.setWorker cpu
      .notifying).setPlace p .marked) := by
  have hp := ((h.each p).worker cpu).mp hw
  refine h.move p ⟨?_, fun c => ?_, ?_, ?_⟩ h.ringOnce
    fun q hq => ⟨?_, .rfl, setWorker_other rfl hw (by simp [Ne.symm hq]), ?_⟩
  · simp [Pipeline.setPlace, Pipeline.setWorker, (h.each p).ring, hp]
  · by_cases hc : c = cpu
    · simp [Pipeline.setPlace, Pipeline.setWorker, hc]
    · simp [Pipeline.setPlace, Pipeline.setWorker, hc, (h.each p).worker, hp, Ne.symm hc]
  · simp [Pipeline.setPlace, Place.unmarked]
  · simpa [Pipeline.setPlace, Pipeline.setWorker] using hresult
  · simp [Pipeline.setPlace, Pipeline.setWorker, hq]
  · simp [Pipeline.setPlace, Pipeline.setWorker, hq]

/-! ## Steps and runs -/

/-- What every step keeps. -/
structure Kept (s : Pipeline) : Prop where
  chain : ∃ nodes, Chain s nodes
  owned : Owned s

theorem Chain.place_of_check (h : Chain s nodes) (ho : Owned s) (hc : s.consumer = .check (.skb p))
    (hstate : s.state p ≠ .uncrypted) : s.place p = .marked := by
  have hpeeked : s.queue.peeked = some (.skb p) := h.working hc
  have hinside := (h.inside p).mpr (by simp [Pipeline.hand, hc, hpeeked])
  exact Place.eq_marked hinside (mt (ho.each p).unmarked hstate)

/-- Before `NEXT` is loaded, the variable `tail` is the tail. -/
theorem Chain.beforeNext (h : Chain s nodes) {t : Node} (hc : s.BeforeNext t) :
    (s.queue.peeked = none ∧ s.queue.tail = t ∧ t ≠ .stub) ∧
      ∀ t a, s.consumer ≠ .decrement t ∧ s.consumer ≠ .linkStub t a := by
  rcases hc with ⟨hc, htail, ht⟩ | hc
  · exact ⟨⟨h.working hc, htail, ht⟩, by simp [hc]⟩
  · exact ⟨h.working hc, by simp [hc]⟩

/-- The consumer keeps the chain. -/
theorem Chain.consumerMove (h : Chain s nodes) (howned : Owned s)
    (hmove : ConsumerMove budget s s') : ∃ nodes', Chain s' nodes' := by
  cases hmove with
  | recheck first hc hpeeked => exact ⟨nodes, h.setConsumer (by simp [hc]) (by simp) hpeeked⟩
  | dequeue hc hpeeked => exact ⟨nodes, h.setConsumer (by simp [hc]) (by simp) hpeeked⟩
  | empty hc htail hnext => exact ⟨nodes, h.setConsumer (by simp [hc]) (by simp) trivial⟩
  | skipStub n hc htail hnext =>
    obtain ⟨rest, rfl⟩ := List.head?_eq_some_iff.mp (htail ▸ h.tail)
    obtain ⟨rest', -, -, h'⟩ := h.skipStub hc hnext
    exact ⟨_, h'⟩
  | take t n hc hnext =>
    rcases hc with hc | hc
    · obtain ⟨⟨hpeeked, htail, ht⟩, hplain⟩ := h.beforeNext hc
      exact h.take htail ht hpeeked hplain hnext
    · obtain ⟨hpeeked, htail, ht, -⟩ := h.working hc
      exact h.take htail ht hpeeked (by simp [hc]) hnext
  | alone t hc hnext =>
    obtain ⟨hwork, hplain⟩ := h.beforeNext hc
    exact ⟨nodes, h.setConsumer hplain (by simp) hwork⟩
  | behind t hc hhead => exact ⟨nodes, h.setConsumer (by simp [hc]) (by simp) trivial⟩
  | ahead t hc hhead =>
    obtain ⟨hpeeked, htail, ht⟩ := h.working hc
    -- The chain begins where it ends, so it is the tail alone.
    obtain ⟨rest, rfl⟩ := List.head?_eq_some_iff.mp (htail ▸ h.tail)
    obtain rfl := h.linked.eq_singleton (hhead ▸ h.head)
    refine ⟨_, h.setConsumer (by simp [hc]) (by simp) ⟨hpeeked, htail, ht, ?_⟩⟩
    simpa using Ne.symm ht
  | clearStub t hc => exact ⟨nodes, h.clearStub hc⟩
  | exchangeStub t hc => exact ⟨_, h.exchangeStub hc⟩
  | linkStub t prev hc => exact ⟨nodes, h.linkStub hc⟩
  | missing t hc hnext => exact ⟨nodes, h.setConsumer (by simp [hc]) (by simp) trivial⟩
  | decrement t hc => exact ⟨nodes, h.decrement hc⟩
  | wait p hc hstate => exact ⟨nodes, h.setConsumer (by simp [hc]) (by simp) trivial⟩
  | handle p hc hstate =>
    exact ⟨nodes, h.handle hc (h.place_of_check howned hc hstate) budget⟩

theorem Owned.consumerMove (h : Owned s) (hchain : Chain s nodes)
    (hmove : ConsumerMove budget s s') : Owned s' := by
  cases hmove with
  | handle p hc hstate =>
    have hp := hchain.place_of_check h hc hstate
    obtain ⟨-, -, hplace, -, hring, hworker, hstate, -⟩ := handle_fields s budget p
    exact h.setPlace hplace hring hworker hstate (by simp [hp]) (by simp)
      (by simp [Place.unmarked]) (by simp)
  | _ => exact h.congr rfl rfl rfl rfl

theorem kept_init : Kept init := ⟨⟨_, chain_init⟩, owned_init⟩

theorem Kept.move (h : Kept s) (hmove : Move budget s s') : Kept s' := by
  obtain ⟨⟨nodes, hchain⟩, howned⟩ := id h
  have hunmarked {q : Skb} (hq : (s.place q).unmarked = true) := (howned.each q).unmarked hq
  have hstay {e : Pipeline} (hcore : e.core = s.core) (hplace : e.place = s.place) :
      ∃ nodes, Chain e nodes := ⟨nodes, hchain.aside (.of_place hcore hplace)⟩
  have hshift {e : Pipeline} {p : Skb} {place : Place} (hcore : e.core = s.core)
      (hplace : e.place = s.place) (hinside : place.inside = (s.place p).inside)
      (hlinking : ∀ a, place ≠ .linking a ∧ s.place p ≠ .linking a) (hcleared : place ≠ .cleared) :
      ∃ nodes, Chain (e.setPlace p place) nodes :=
    ⟨nodes, hchain.aside (.setPlace hcore hplace hinside hlinking hcleared)⟩
  cases hmove with
  | refuse => exact h
  | enter p hp =>
    exact ⟨hshift rfl rfl (by rw [hp]; rfl) (by simp [hp]) (by simp), howned.enter hp⟩
  | full p hp hcount =>
    refine ⟨hshift rfl rfl (by rw [hp]; rfl) (by simp [hp]) (by simp),
      howned.setPlace rfl rfl rfl rfl ?_ ?_ ?_ ?_⟩ <;> simp [hp, Place.unmarked]
  | count p hp hcount =>
    refine ⟨hshift rfl rfl (by rw [hp]; rfl) (by simp [hp]) (by simp),
      howned.setPlace rfl rfl rfl rfl ?_ ?_ ?_ ?_⟩ <;> simp [hp, hunmarked, Place.unmarked]
  | clearNext p hp =>
    refine ⟨⟨nodes, hchain.clearNext hp⟩, howned.setPlace rfl rfl rfl rfl ?_ ?_ ?_ ?_⟩ <;>
      simp [hp, hunmarked, Place.unmarked]
  | exchange p hp =>
    refine ⟨⟨_, hchain.exchange hp⟩, howned.setPlace rfl rfl rfl rfl ?_ ?_ ?_ ?_⟩ <;>
      simp [hp, hunmarked, Place.unmarked]
  | link p prev hp =>
    refine ⟨⟨nodes, hchain.link hp⟩, howned.setPlace rfl rfl rfl rfl ?_ ?_ ?_ ?_⟩ <;>
      simp [hp, hunmarked, Place.unmarked]
  | produce p cpu hp =>
    exact ⟨hshift rfl rfl (by rw [hp]; rfl) (by simp [hp]) (by simp), howned.produce hp _⟩
  | reject p hp =>
    refine ⟨hshift rfl rfl (by rw [hp]; rfl) (by simp [hp]) (by simp),
      howned.setPlace rfl rfl rfl rfl ?_ ?_ ?_ ?_⟩ <;> simp [hp, hunmarked, Place.unmarked]
  | kill p hp =>
    exact ⟨hshift rfl rfl (by rw [hp]; rfl) (by simp [hp]) (by simp), howned.kill hp _⟩
  | notify n hn => exact ⟨hstay rfl rfl, howned.congr rfl rfl rfl rfl⟩
  | wake cpu => exact ⟨hstay rfl rfl, howned.congr rfl rfl rfl rfl⟩
  | produceOther cpu =>
    refine ⟨hstay rfl rfl, fun q => (howned.each q).congr rfl ?_ (fun _ => .rfl) rfl, ?_⟩
    · simp
    · simpa [List.filterMap_append] using howned.ringOnce
  | startWork cpu hw =>
    refine ⟨hstay rfl rfl, ?_⟩
    exact howned.setWorker (by simp [hw]) (by simp) rfl (fun _ => .rfl) howned.ringOnce rfl rfl
  | drained cpu hw hring =>
    refine ⟨hstay rfl rfl, ?_⟩
    exact howned.setWorker (by simp [hw]) (by simp) rfl (fun _ => .rfl) howned.ringOnce rfl rfl
  | consumeOther cpu rest hw hring =>
    refine ⟨hstay rfl rfl, howned.setWorker (by simp [hw]) (by simp) rfl ?_ ?_ rfl rfl⟩
    · simp [hring, Pipeline.setWorker]
    · have honce := howned.ringOnce
      rw [hring] at honce
      exact honce
  | consume cpu p rest hw hring =>
    have hp : s.place p = .ring := (howned.each p).ring.mp (by simp [hring])
    exact ⟨hshift rfl rfl (by rw [hp]; rfl) (by simp [hp]) (by simp), howned.consume hring hw⟩
  | cryptOther cpu hw =>
    refine ⟨hstay rfl rfl, ?_⟩
    exact howned.setWorker (by simp [hw]) (by simp) rfl (fun _ => .rfl) howned.ringOnce rfl rfl
  | crypt cpu p result hw hresult =>
    have hp := ((howned.each p).worker cpu).mp hw
    exact ⟨hshift rfl rfl (by rw [hp]; rfl) (by simp [hp]) (by simp), howned.crypt hw hresult⟩
  | notifyWork cpu hw =>
    refine ⟨hstay rfl rfl, ?_⟩
    exact howned.setWorker (by simp [hw]) (by simp) rfl (fun _ => .rfl) howned.ringOnce rfl rfl
  | start hidle =>
    have hpeek := hchain.setConsumer (c := .peek) (by simp [hidle]) (by simp) trivial
    exact ⟨⟨nodes, hpeek.aside (.of_place rfl rfl)⟩, howned.congr rfl rfl rfl rfl⟩
  | consumer _ hmove => exact ⟨hchain.consumerMove howned hmove, howned.consumerMove hchain hmove⟩
  | makeDead => exact ⟨hstay rfl rfl, howned.congr rfl rfl rfl rfl⟩

theorem kept_run {as : List Action} (h : Transition.run (step budget) init as = some s) : Kept s :=
  Transition.run_invariant (fun _ _ _ hs hstep => hs.move (move_of_step hstep)) kept_init h

/-- Only the consumer takes packets, and only marked ones. -/
theorem Move.handled (h : Move budget s s') :
    s'.handled = s.handled ∨
      ∃ p, s.consumer = .check (.skb p) ∧ s.state p ≠ .uncrypted ∧ s' = s.handle budget p := by
  cases h with
  | consumer _ hmove =>
    cases hmove with
    | handle p hc hstate => exact .inr ⟨p, hc, hstate, rfl⟩
    | _ => exact .inl rfl
  | _ => exact .inl rfl

theorem handled_run {as : List Action} (h : Transition.run (step budget) init as = some s) :
    ∀ x ∈ s.handled, x.2 ≠ .uncrypted := by
  refine Transition.run_invariant (I := fun s => ∀ x ∈ s.handled, x.2 ≠ .uncrypted) ?_ ?_ h
  · intro s a s' hs hstep
    rcases (move_of_step hstep).handled with hsame | ⟨p, -, hstate, rfl⟩
    · rwa [hsame]
    · intro x hx
      rw [(handle_fields s budget p).2.1, List.mem_append, List.mem_singleton] at hx
      rcases hx with hx | rfl
      · exact hs x hx
      · exact hstate
  · rintro x ⟨⟩

theorem Chain.nodup_waiting (h : Chain s nodes) :
    ((s.hand ++ nodes).filterMap Node.skb?).Nodup := by
  have hhand : s.hand.Nodup := by
    unfold Pipeline.hand
    split
    · next t hc =>
      have hpeeked : s.queue.peeked = none := h.working hc
      rw [hpeeked]
      exact List.nodup_singleton t
    · cases s.queue.peeked with
      | none => exact List.nodup_nil
      | some t => exact List.nodup_singleton t
  have hall : (s.hand ++ nodes).Nodup :=
    hhand.append h.linked.nodup fun t ht hn => (h.hand t ht).2 hn
  refine hall.filterMap ?_
  rintro (_ | p) (_ | q) r hp hq
  · cases hp
  · cases hp
  · cases hq
  · cases hp
    cases hq
    rfl

/-- The packets that have been taken are the first ones that entered, in this order, and each of
them was marked; the others that entered are the ones between the producers and the consumer. -/
theorem handled_in_order {as : List Action} (h : Transition.run (step budget) init as = some s) :
    (∀ x ∈ s.handled, x.2 ≠ .uncrypted) ∧
      ∃ waiting, s.entered = s.handled.map Prod.fst ++ waiting ∧ waiting.Nodup ∧
        ∀ p, p ∈ waiting ↔ (s.place p).inside = true := by
  obtain ⟨⟨nodes, hchain⟩, -⟩ := kept_run h
  refine ⟨handled_run h, _, hchain.log, hchain.nodup_waiting, fun p => ?_⟩
  rw [hchain.inside p, List.mem_filterMap]
  constructor
  · rintro ⟨_ | q, hq, hp⟩
    · cases hp
    · cases hp
      exact hq
  · exact fun hp => ⟨.skb p, hp, rfl⟩

/-- Two packets that become the head in this order, are linked and encrypted in the other order,
and of which the first one fails. -/
def crossing : List Action :=
  [.enter 0, .addUnless 0, .clearNext 0, .exchange 0, .enter 1, .addUnless 1, .clearNext 1,
    .exchange 1, .link 1, .link 0, .produce 1 5, .produce 0 6, .wake 5, .startWork 5, .consume 5,
    .crypt 5 true, .notifyWork 5, .start, .consumerStep, .consumerStep, .consumerStep,
    .consumerStep, .consumerStep, .consume 5, .crypt 5 false, .notifyWork 5, .start,
    .consumerStep, .consumerStep, .consumerStep, .consumerStep, .consumerStep, .consumerStep,
    .consumerStep, .consumerStep, .consumerStep, .consumerStep, .consumerStep]

theorem handled_in_order_crossing :
    ∃ s, Transition.run (step none) init crossing = some s ∧
      s.handled = [(0, .dead), (1, .crypted)] ∧ s.entered = [0, 1] := by
  obtain ⟨s, hrun, hcheck⟩ := Transition.exists_run_of_any (by decide +kernel :
    (Transition.run (step none) init crossing).any
      (fun s => decide (s.handled = [(0, .dead), (1, .crypted)]) &&
        decide ((s.place 0).inside = false ∧ (s.place 1).inside = false) &&
        decide (s.entered.length = 2)) = true)
  simp only [Bool.and_eq_true, decide_eq_true_eq] at hcheck
  obtain ⟨⟨hhandled, -⟩, hlength⟩ := hcheck
  obtain ⟨-, waiting, hentered, -, -⟩ := handled_in_order hrun
  rw [hhandled] at hentered
  have hnone : waiting = [] := by
    rw [hentered] at hlength
    simpa using hlength
  exact ⟨s, hrun, hhandled, by simpa [hnone] using hentered⟩

/-- When the consumer takes a packet, nobody else has it: it is neither on the ring nor with a
worker, no thread is about to write its link, and the queue does not lead to it. -/
theorem handled_released {as : List Action} (h : Transition.run (step budget) init as = some s)
    {a : Action} (hstep : s.step budget a = some s') (hnew : s'.handled ≠ s.handled) :
    ∃ p, s'.handled = s.handled ++ [(p, s.state p)] ∧ some p ∉ s'.ring ∧
      (∀ cpu, s'.worker cpu ≠ .crypting (some p)) ∧ (∀ b, ¬ s'.Pending (.skb p) b) ∧
      ∃ nodes, Chain s' nodes ∧ .skb p ∉ nodes := by
  have hkept := (kept_run h).move (move_of_step hstep)
  obtain ⟨p, -, -, rfl⟩ := (move_of_step hstep).handled.resolve_left hnew
  obtain ⟨⟨nodes, hchain⟩, howned⟩ := hkept
  have hp : (s.handle budget p).place p = .caller := by simp
  have hnodes := (hchain.not_mem (p := p) (by rw [hp]; rfl)).2
  refine ⟨p, by simp, ?_, ?_, ?_, nodes, hchain, hnodes⟩
  · rw [(howned.each p).ring, hp]
    simp
  · intro cpu
    rw [ne_eq, (howned.each p).worker, hp]
    simp
  · intro b hb
    obtain ⟨-, l, r, hsplit⟩ := hchain.linked.pending _ _ hb
    exact hnodes (by simp [hsplit])

theorem handled_released_crossing :
    ∃ s s', Transition.run (step none) init (crossing.take 28) = some s ∧
      s.step none .consumerStep = some s' ∧
      ∃ p, s'.handled = s.handled ++ [(p, s.state p)] ∧ some p ∉ s'.ring := by
  obtain ⟨s, hrun, hcheck⟩ := Transition.exists_run_of_any (by decide +kernel :
    (Transition.run (step none) init (crossing.take 28)).any (fun s =>
      (s.step none .consumerStep).any fun s' => decide (s'.handled ≠ s.handled)) = true)
  obtain ⟨s', hstep, hnew⟩ := (Option.any_eq_true _ _).mp hcheck
  obtain ⟨p, hhandled, hring, -⟩ := handled_released hrun hstep (of_decide_eq_true hnew)
  exact ⟨s, s', hrun, hstep, p, hhandled, hring⟩

end Pipeline

end Queueing

end WgTcp
