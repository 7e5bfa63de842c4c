import WgTcp.Queueing.Pipeline

/-!
# The packets on a queue

The nodes from the tail of a queue to its head form a chain in which links may
still be missing. What the consumer has taken out and what is on the chain is
what has entered, in the order of the exchanges of the head.
-/

namespace WgTcp

namespace Queueing

open LinkedQueue

/-- Places of packets that have become the head and have not been handled. -/
def Place.inside : Place → Bool
  | .linking _ | .linked | .rejected | .ring | .crypt _ | .marked => true
  | .caller | .entering | .counted | .cleared => false

namespace Pipeline

/-- The link from `a` to `b` is the next write of some thread. -/
def Pending (s : Pipeline) (a b : Node) : Prop :=
  (∃ p, b = .skb p ∧ s.place p = .linking a) ∨ (b = .stub ∧ ∃ t, s.consumer = .linkStub t a)

/-- What the consumer has taken out of the chain. -/
def hand (s : Pipeline) : List Node :=
  match s.consumer with
  | .decrement tail => s.queue.peeked.toList ++ [tail]
  | _ => s.queue.peeked.toList

/-- What the variables of the consumer say about the chain. -/
def AtWork (s : Pipeline) (nodes : List Node) : Consumer → Prop
  | .idle | .peek => True
  | .load => s.queue.peeked = none
  | .reload t | .compare t | .linkStub t _ => s.queue.peeked = none ∧ s.queue.tail = t ∧ t ≠ .stub
  | .clearStub t => s.queue.peeked = none ∧ s.queue.tail = t ∧ t ≠ .stub ∧ .stub ∉ nodes
  | .exchangeStub t =>
      s.queue.peeked = none ∧ s.queue.tail = t ∧ t ≠ .stub ∧ .stub ∉ nodes ∧
        s.queue.next .stub = none
  | .last t => s.queue.peeked = none ∧ s.queue.tail = t ∧ t ≠ .stub ∧ .stub ∈ nodes
  | .decrement _ => s.queue.peeked = none
  | .check t => s.queue.peeked = some t

/-- The nodes of a queue from its tail to its head. -/
structure Chain (s : Pipeline) (nodes : List Node) : Prop where
  linked : Linked s.queue.next s.Pending nodes
  head : nodes.getLast? = some s.queue.head
  tail : nodes.head? = some s.queue.tail
  log : s.entered = s.handled.map Prod.fst ++ (s.hand ++ nodes).filterMap Node.skb?
  inside : ∀ p, (s.place p).inside = true ↔ .skb p ∈ s.hand ++ nodes
  hand : ∀ t ∈ s.hand, t ≠ .stub ∧ t ∉ nodes
  cleared : ∀ p, s.place p = .cleared → s.queue.next (.skb p) = none
  atWork : s.AtWork nodes s.consumer

variable {s s' : Pipeline} {nodes : List Node} {p : Skb} {budget : Option Nat}

theorem chain_init : Chain init [.stub] where
  linked := Linked.singleton rfl (by simp [Pending, init])
  head := rfl
  tail := rfl
  log := rfl
  inside := by simp [init, Place.inside, Pipeline.hand, PrevQueue.init]
  hand := by simp [init, Pipeline.hand, PrevQueue.init]
  cleared := by simp [init]
  atWork := trivial

theorem Chain.working (h : Chain s nodes) {c : Consumer} (hc : s.consumer = c) : s.AtWork nodes c :=
  hc ▸ h.atWork

/-- What the variables of the consumer depend on. -/
theorem AtWork.congr {nodes' : List Node} {c : Consumer} (h : s.AtWork nodes c)
    (hpeeked : s'.queue.peeked = s.queue.peeked) (htail : s'.queue.tail = s.queue.tail)
    (hstub : .stub ∈ nodes' ↔ .stub ∈ nodes)
    (hnext : .stub ∉ nodes → s.queue.next .stub = none → s'.queue.next .stub = none) :
    s'.AtWork nodes' c := by
  unfold AtWork at h ⊢
  rw [hpeeked, htail, hstub]
  cases c with
  | exchangeStub t =>
    obtain ⟨hnone, ht, hne, hmem, hclear⟩ := h
    exact ⟨hnone, ht, hne, hmem, hnext hmem hclear⟩
  | _ => exact h

/-! ## Steps that leave the chain -/

/-- The parts of a machine that the chain is about, but for the places. -/
def core (s : Pipeline) : Pipeline :=
  { init with
    queue := { s.queue with count := 0 }
    consumer := s.consumer
    entered := s.entered
    handled := s.handled }

/-- A step that moves packets among places that the chain does not tell apart. -/
structure Aside (s s' : Pipeline) : Prop where
  core : s'.core = s.core
  linking : ∀ p a, s'.place p = .linking a ↔ s.place p = .linking a
  inside : ∀ p, (s'.place p).inside = (s.place p).inside
  cleared : ∀ p, s'.place p = .cleared → s.place p = .cleared

theorem Chain.aside (h : Chain s nodes) (ha : Aside s s') : Chain s' nodes := by
  have hnext : s'.queue.next = s.queue.next := congrArg (·.queue.next) ha.core
  have hpeeked : s'.queue.peeked = s.queue.peeked := congrArg (·.queue.peeked) ha.core
  have hconsumer : s'.consumer = s.consumer := congrArg (·.consumer) ha.core
  have htail : s'.queue.tail = s.queue.tail := congrArg (·.queue.tail) ha.core
  have hhead : s'.queue.head = s.queue.head := congrArg (·.queue.head) ha.core
  have hlog : s'.entered = s.entered ∧ s'.handled = s.handled :=
    ⟨congrArg (·.entered) ha.core, congrArg (·.handled) ha.core⟩
  have hhand : s'.hand = s.hand := by
    unfold Pipeline.hand
    rw [hconsumer, hpeeked]
  have hpend (a b : Node) : s'.Pending a b ↔ s.Pending a b := by
    simp only [Pending, ha.linking, hconsumer]
  refine ⟨?_, hhead ▸ h.head, htail ▸ h.tail, ?_, ?_, hhand ▸ h.hand, ?_, ?_⟩
  · rw [hnext]
    exact h.linked.congr (fun _ _ => rfl) hpend
  · rw [hlog.1, hlog.2, hhand]
    exact h.log
  · intro p
    rw [ha.inside, hhand]
    exact h.inside p
  · intro p hp
    rw [hnext]
    exact h.cleared p (ha.cleared p hp)
  · rw [hconsumer]
    exact h.atWork.congr hpeeked htail .rfl fun _ hnone => hnext ▸ hnone

theorem Aside.of_place (h : s'.core = s.core) (hplace : s'.place = s.place) : Aside s s' :=
  ⟨h, by simp [hplace], by simp [hplace], by simp [hplace]⟩

/-- A packet moves from one place to another that the chain does not tell from it. -/
theorem Aside.setPlace {place : Place} (h : s'.core = s.core) (hplace : s'.place = s.place)
    (hinside : place.inside = (s.place p).inside)
    (hlinking : ∀ a, place ≠ .linking a ∧ s.place p ≠ .linking a) (hcleared : place ≠ .cleared) :
    Aside s (s'.setPlace p place) := by
  have hother {q : Skb} (hq : q ≠ p) : (s'.setPlace p place).place q = s.place q := by
    simp [Pipeline.setPlace, hq, hplace]
  have hself : (s'.setPlace p place).place p = place := Function.update_self ..
  refine ⟨h, fun q a => ?_, fun q => ?_, fun q => ?_⟩ <;> by_cases hq : q = p
  · simp [hq, hself, hlinking a]
  · rw [hother hq]
  · rw [hq, hself, hinside]
  · rw [hother hq]
  · simp [hq, hself, hcleared]
  · rw [hother hq]
    exact fun hplace => hplace

/-! ## Producers -/

theorem Chain.not_mem (h : Chain s nodes) (hp : (s.place p).inside = false) :
    .skb p ∉ s.hand ∧ .skb p ∉ nodes := by
  have hmem := (h.inside p).not.mp (by simp [hp])
  simpa using hmem

theorem Chain.clearNext (h : Chain s nodes) (hp : s.place p = .counted) :
    Chain ((s.setNext (.skb p) none).setPlace p .cleared) nodes := by
  have hmem := (h.not_mem (p := p) (by rw [hp]; rfl)).2
  have hnext (a : Node) (ha : a ≠ .skb p) :
      Function.update s.queue.next (.skb p) none a = s.queue.next a := Function.update_of_ne ha ..
  refine ⟨?_, h.head, h.tail, h.log, ?_, h.hand, ?_, ?_⟩
  · refine h.linked.congr (fun a ha => hnext a ?_) fun a b => ?_
    · rintro rfl
      exact hmem ha
    · simp only [Pending, Pipeline.setPlace, setNext]
      refine or_congr_left (exists_congr fun q => and_congr_right fun _ => ?_)
      by_cases hq : q = p
      · simp [hq, hp]
      · simp [hq]
  · intro q
    refine Iff.trans ?_ (h.inside q)
    by_cases hq : q = p
    · simp [Pipeline.setPlace, hq, hp, Place.inside]
    · simp [Pipeline.setPlace, hq, setNext]
  · intro q hq
    by_cases hqp : q = p
    · simp [Pipeline.setPlace, setNext, hqp]
    · have hq' : s.place q = .cleared := by simpa [Pipeline.setPlace, setNext, hqp] using hq
      exact (hnext (.skb q) (by simpa using hqp)).trans (h.cleared q hq')
  · exact h.atWork.congr rfl rfl .rfl fun _ hnone => (hnext .stub (by simp)).trans hnone

theorem Chain.exchange (h : Chain s nodes) (hp : s.place p = .cleared) :
    Chain ({ s with
      queue := { s.queue with head := .skb p }
      entered := s.entered ++ [p] }.setPlace p (.linking s.queue.head)) (nodes ++ [.skb p]) := by
  obtain ⟨hhand, hnodes⟩ := h.not_mem (p := p) (by rw [hp]; rfl)
  have hne : nodes ≠ [] := by
    rintro rfl
    cases h.head
  refine ⟨?_, List.getLast?_concat, ?_, ?_, ?_, ?_, ?_, ?_⟩
  · refine h.linked.exchange hnodes (h.cleared p hp) h.head fun a b => ?_
    simp only [Pending, Pipeline.setPlace]
    constructor
    · rintro (⟨q, rfl, hq⟩ | hstub)
      · by_cases hqp : q = p
        · subst hqp
          rw [Function.update_self] at hq
          cases hq
          exact .inr ⟨rfl, rfl⟩
        · rw [Function.update_of_ne hqp] at hq
          exact .inl (.inl ⟨q, rfl, hq⟩)
      · exact .inl (.inr hstub)
    · rintro ((⟨q, rfl, hq⟩ | hstub) | ⟨rfl, rfl⟩)
      · refine .inl ⟨q, rfl, ?_⟩
        rw [Function.update_of_ne]
        · exact hq
        · rintro rfl
          rw [hp] at hq
          cases hq
      · exact .inr hstub
      · exact .inl ⟨p, rfl, Function.update_self ..⟩
  · exact (List.head?_append_of_ne_nil _ hne).trans h.tail
  · change s.entered ++ [p] =
      s.handled.map Prod.fst ++ (s.hand ++ (nodes ++ [Node.skb p])).filterMap Node.skb?
    rw [h.log]
    simp [Node.skb?]
  · intro q
    change _ ↔ .skb q ∈ s.hand ++ (nodes ++ [.skb p])
    rw [← List.append_assoc, List.mem_append, ← h.inside q]
    by_cases hq : q = p
    · simp [Pipeline.setPlace, hq, Place.inside]
    · simp [Pipeline.setPlace, hq]
  · intro t ht
    obtain ⟨hstub, hmem⟩ := h.hand t ht
    refine ⟨hstub, ?_⟩
    rw [List.mem_append, List.mem_singleton]
    rintro (hmem' | rfl)
    · exact hmem hmem'
    · exact hhand ht
  · intro q hq
    by_cases hqp : q = p
    · simp [Pipeline.setPlace, hqp] at hq
    · exact h.cleared q (by simpa [Pipeline.setPlace, hqp] using hq)
  · exact h.atWork.congr rfl rfl (by simp) fun _ hnone => hnone

theorem Chain.link (h : Chain s nodes) {prev : Node} (hp : s.place p = .linking prev) :
    Chain ((s.setNext prev (some (.skb p))).setPlace p .linked) nodes := by
  have hpend : s.Pending prev (.skb p) := .inl ⟨p, rfl, hp⟩
  have hprev : prev ∈ nodes := by
    obtain ⟨-, l, r, rfl⟩ := h.linked.pending _ _ hpend
    simp
  refine ⟨?_, h.head, h.tail, h.log, ?_, h.hand, ?_, ?_⟩
  · refine h.linked.link hpend fun c d => ?_
    simp only [Pending, Pipeline.setPlace, setNext]
    constructor
    · rintro (⟨q, rfl, hq⟩ | ⟨rfl, hstub⟩)
      · by_cases hqp : q = p
        · simp [hqp] at hq
        · exact ⟨.inl ⟨q, rfl, by simpa [hqp] using hq⟩, by simpa using hqp⟩
      · exact ⟨.inr ⟨rfl, hstub⟩, by simp⟩
    · rintro ⟨⟨q, rfl, hq⟩ | hstub, hne⟩
      · have hqp : q ≠ p := by simpa using hne
        exact .inl ⟨q, rfl, by simpa [hqp] using hq⟩
      · exact .inr hstub
  · intro q
    refine Iff.trans ?_ (h.inside q)
    by_cases hq : q = p
    · simp [Pipeline.setPlace, hq, hp, Place.inside]
    · simp [Pipeline.setPlace, hq, setNext]
  · intro q hq
    have hqp : q ≠ p := by
      rintro rfl
      simp [Pipeline.setPlace] at hq
    have hq' : s.place q = .cleared := by simpa [Pipeline.setPlace, setNext, hqp] using hq
    have hne : .skb q ≠ prev := by
      rintro rfl
      exact (h.not_mem (by rw [hq']; rfl)).2 hprev
    exact (Function.update_of_ne hne ..).trans (h.cleared q hq')
  · refine h.atWork.congr rfl rfl .rfl fun hmem hnone => ?_
    have hne : .stub ≠ prev := by
      rintro rfl
      exact hmem hprev
    exact (Function.update_of_ne hne ..).trans hnone

/-! ## The consumer -/

/-- The consumer goes on without touching the queue. -/
theorem Chain.setConsumer (h : Chain s nodes) {c : Consumer}
    (hs : ∀ t a, s.consumer ≠ .decrement t ∧ s.consumer ≠ .linkStub t a)
    (hc : ∀ t a, c ≠ .decrement t ∧ c ≠ .linkStub t a) (hwork : s.AtWork nodes c) :
    Chain (s.setConsumer c) nodes := by
  have hhand {c : Consumer} (hc : ∀ t a, c ≠ .decrement t ∧ c ≠ .linkStub t a) :
      (s.setConsumer c).hand = s.queue.peeked.toList := by
    unfold Pipeline.hand
    split
    · next t ht => exact absurd ht (hc t .stub).1
    · rfl
  have hsame : (s.setConsumer c).hand = s.hand := (hhand hc).trans (hhand hs).symm
  refine ⟨?_, h.head, h.tail, hsame ▸ h.log, hsame ▸ h.inside, hsame ▸ h.hand, h.cleared, hwork⟩
  refine h.linked.congr (fun _ _ => rfl) fun a b => ?_
  simp [Pending, Pipeline.setConsumer, fun t => (hs t a).2, fun t => (hc t a).2]

/-- The stub at the front is passed over. -/
theorem Chain.skipStub {rest : List Node} (h : Chain s (.stub :: rest)) (hc : s.consumer = .load)
    {n : Node} (hnext : s.queue.next .stub = some n) :
    ∃ rest', rest = n :: rest' ∧ n ≠ .stub ∧ Chain (s.skipStub n) (n :: rest') := by
  have hpeeked : s.queue.peeked = none := h.working hc
  obtain ⟨rest, rfl⟩ := h.linked.of_next_eq_some hnext
  have hne : n ≠ .stub := by
    rintro rfl
    exact (List.nodup_cons.mp h.linked.nodup).1 List.mem_cons_self
  have hhand : s.hand = [] := by simp [Pipeline.hand, hc, hpeeked]
  have hhand' : (s.skipStub n).hand = [] := by
    simp [Pipeline.hand, Pipeline.skipStub, hpeeked]
  refine ⟨rest, rfl, hne, ?_, ?_, rfl, ?_, ?_, ?_, h.cleared, hpeeked, rfl, hne⟩
  · refine (h.linked.advance hnext).congr (fun _ _ => rfl) fun a b => ?_
    simp [Pending, Pipeline.skipStub, hc]
  · exact (List.getLast?_cons_cons ..).symm.trans h.head
  · rw [hhand']
    refine h.log.trans ?_
    rw [hhand]
    rfl
  · intro q
    rw [hhand']
    refine (h.inside q).trans ?_
    rw [hhand]
    simp
  · rw [hhand']
    simp

/-- The first node leaves the chain across its link. -/
theorem Chain.take (h : Chain s nodes) {t n : Node} (htail : s.queue.tail = t) (ht : t ≠ .stub)
    (hpeeked : s.queue.peeked = none)
    (hc : ∀ t a, s.consumer ≠ .decrement t ∧ s.consumer ≠ .linkStub t a)
    (hnext : s.queue.next t = some n) : ∃ nodes', Chain (s.take t n) nodes' := by
  obtain ⟨rest, hnodes⟩ := List.head?_eq_some_iff.mp (htail ▸ h.tail)
  subst hnodes
  obtain ⟨rest, rfl⟩ := h.linked.of_next_eq_some hnext
  have hhand : s.hand = [] := by
    unfold Pipeline.hand
    split
    · next t ht => exact absurd ht (hc t .stub).1
    · rw [hpeeked]
      rfl
  have hhand' : (s.take t n).hand = [t] := by simp [Pipeline.hand, Pipeline.take, hpeeked]
  refine ⟨n :: rest, ?_, ?_, rfl, ?_, ?_, ?_, h.cleared, hpeeked⟩
  · refine (h.linked.advance hnext).congr (fun _ _ => rfl) fun a b => ?_
    simp [Pending, Pipeline.take, fun t => (hc t a).2]
  · exact (List.getLast?_cons_cons ..).symm.trans h.head
  · rw [hhand']
    refine h.log.trans ?_
    rw [hhand]
    rfl
  · intro q
    rw [hhand']
    refine (h.inside q).trans ?_
    rw [hhand]
    simp
  · intro u hu
    rw [hhand', List.mem_singleton] at hu
    subst hu
    exact ⟨ht, (List.nodup_cons.mp h.linked.nodup).1⟩

theorem Chain.clearStub (h : Chain s nodes) {t : Node} (hc : s.consumer = .clearStub t) :
    Chain ((s.setNext .stub none).setConsumer (.exchangeStub t)) nodes := by
  obtain ⟨hpeeked, htail, ht, hstub⟩ := h.working hc
  have hhand : ((s.setNext .stub none).setConsumer (.exchangeStub t)).hand = s.hand := by
    simp [Pipeline.hand, hc, setNext, Pipeline.setConsumer]
  refine ⟨?_, h.head, h.tail, hhand ▸ h.log, hhand ▸ h.inside, hhand ▸ h.hand, ?_, ?_⟩
  · refine h.linked.congr (fun a ha => Function.update_of_ne ?_ ..) fun a b => ?_
    · rintro rfl
      exact hstub ha
    · simp [Pending, setNext, Pipeline.setConsumer, hc]
  · intro q hq
    have hnext := h.cleared q hq
    simpa [setNext, Pipeline.setConsumer] using hnext
  · exact ⟨hpeeked, htail, ht, hstub, by simp [setNext, Pipeline.setConsumer]⟩

theorem Chain.exchangeStub (h : Chain s nodes) {t : Node} (hc : s.consumer = .exchangeStub t) :
    Chain (s.exchangeStub t) (nodes ++ [.stub]) := by
  obtain ⟨hpeeked, htail, ht, hstub, hnext⟩ := h.working hc
  have hne : nodes ≠ [] := by
    rintro rfl
    cases h.head
  have hhand : s.hand = [] := by simp [Pipeline.hand, hc, hpeeked]
  have hhand' : (s.exchangeStub t).hand = [] := by
    simp [Pipeline.hand, Pipeline.exchangeStub, hpeeked]
  refine ⟨?_, List.getLast?_concat, ?_, ?_, ?_, ?_, h.cleared, hpeeked, htail, ht⟩
  · refine h.linked.exchange hstub hnext h.head fun a b => ?_
    simp [Pending, Pipeline.exchangeStub, hc, and_comm, eq_comm]
  · exact (List.head?_append_of_ne_nil _ hne).trans h.tail
  · rw [hhand']
    refine h.log.trans ?_
    rw [hhand]
    simp [Node.skb?, Pipeline.exchangeStub]
  · intro q
    rw [hhand']
    refine (h.inside q).trans ?_
    rw [hhand]
    simp
  · rw [hhand']
    simp

theorem Chain.linkStub (h : Chain s nodes) {t prev : Node} (hc : s.consumer = .linkStub t prev) :
    Chain ((s.setNext prev (some .stub)).setConsumer (.last t)) nodes := by
  obtain ⟨hpeeked, htail, ht⟩ := h.working hc
  have hpend : s.Pending prev .stub := .inr ⟨rfl, t, hc⟩
  obtain ⟨-, l, r, hnodes⟩ := h.linked.pending _ _ hpend
  have hhand : ((s.setNext prev (some .stub)).setConsumer (.last t)).hand = s.hand := by
    simp [Pipeline.hand, hc, setNext, Pipeline.setConsumer]
  refine ⟨?_, h.head, h.tail, hhand ▸ h.log, hhand ▸ h.inside, hhand ▸ h.hand, ?_, ?_⟩
  · refine h.linked.link hpend fun a b => ?_
    simp only [Pending, setNext, Pipeline.setConsumer, hc]
    constructor
    · rintro (⟨q, rfl, hq⟩ | ⟨-, u, hu⟩)
      · exact ⟨.inl ⟨q, rfl, hq⟩, by simp⟩
      · cases hu
    · rintro ⟨hq | ⟨rfl, -⟩, hne⟩
      · exact .inl hq
      · exact absurd rfl hne
  · intro q hq
    have hne : .skb q ≠ prev := by
      rintro rfl
      exact (h.not_mem (by rw [show s.place q = .cleared from hq]; rfl)).2 (by simp [hnodes])
    exact (Function.update_of_ne hne ..).trans (h.cleared q hq)
  · exact ⟨hpeeked, htail, ht, by simp [hnodes]⟩

theorem Chain.decrement (h : Chain s nodes) {t : Node} (hc : s.consumer = .decrement t) :
    Chain (s.decrement t) nodes := by
  have hpeeked : s.queue.peeked = none := h.working hc
  have hhand : (s.decrement t).hand = s.hand := by
    simp [Pipeline.hand, Pipeline.decrement, hc, hpeeked]
  refine ⟨?_, h.head, h.tail, hhand ▸ h.log, hhand ▸ h.inside, hhand ▸ h.hand, h.cleared, rfl⟩
  refine h.linked.congr (fun _ _ => rfl) fun a b => ?_
  simp [Pending, Pipeline.decrement, hc]

/-- A packet leaves the hand of the consumer. -/
theorem Chain.handle (h : Chain s nodes) (hc : s.consumer = .check (.skb p))
    (hp : s.place p = .marked) (budget : Option Nat) : Chain (s.handle budget p) nodes := by
  have hpeeked : s.queue.peeked = some (.skb p) := h.working hc
  have hhand : s.hand = [.skb p] := by simp [Pipeline.hand, hc, hpeeked]
  have hnodes : .skb p ∉ nodes := (h.hand (.skb p) (by simp [hhand])).2
  have hconsumer : (s.handle budget p).consumer = .peek ∨ (s.handle budget p).consumer = .idle :=
    (handle_consumer s budget p).imp_right And.left
  have hhand' : (s.handle budget p).hand = [] := by
    rcases hconsumer with hc | hc <;> simp [Pipeline.hand, hc]
  have hpend (a b : Node) : (s.handle budget p).Pending a b ↔ s.Pending a b := by
    have hstub : (∃ t, (s.handle budget p).consumer = .linkStub t a) ↔
        ∃ t, s.consumer = .linkStub t a := by
      rcases hconsumer with hc' | hc' <;> simp [hc, hc']
    simp only [Pending, hstub, handle_fields]
    refine or_congr_left (exists_congr fun q => and_congr_right fun _ => ?_)
    by_cases hq : q = p
    · simp [hq, hp]
    · simp [hq]
  refine ⟨?_, ?_, ?_, ?_, ?_, ?_, ?_, ?_⟩
  · rw [(handle_fields s budget p).1]
    exact h.linked.congr (fun _ _ => rfl) hpend
  · rw [(handle_fields s budget p).1]
    exact h.head
  · rw [(handle_fields s budget p).1]
    exact h.tail
  · simp [hhand', h.log, hhand, Node.skb?]
  · intro q
    have hinside := h.inside q
    rw [hhand] at hinside
    by_cases hq : q = p
    · subst hq
      simp [hhand', Place.inside, hnodes]
    · simpa [hhand', hq] using hinside
  · simp [hhand']
  · intro q hq
    by_cases hqp : q = p
    · simp [hqp] at hq
    · simpa using h.cleared q (by simpa [hqp] using hq)
  · rcases hconsumer with hc | hc <;> rw [hc] <;> trivial

end Pipeline

end Queueing

end WgTcp
