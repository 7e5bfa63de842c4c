import Mathlib

/-!
# Chains of nodes that are appended before they are linked

A node is appended to a chain in two steps: it becomes the last node first, and
the node before it is made to point to it later. In between the chain is broken,
and other nodes may be appended behind the break. Nodes leave the chain at the
front, across a link that has been written.
-/

namespace LinkedQueue

variable {ν : Type*} {next : ν → Option ν} {pend pend' : ν → ν → Prop} {nodes rest : List ν}
  {a b c x : ν}

/-- The nodes of a chain in order; `pend a b` holds while the link from `a` to `b` has still to be
written. -/
structure Linked (next : ν → Option ν) (pend : ν → ν → Prop) (nodes : List ν) : Prop where
  nodup : nodes.Nodup
  chain : nodes.IsChain fun a b => next a = some b ∨ next a = none ∧ pend a b
  last : ∀ a, nodes.getLast? = some a → next a = none
  pending : ∀ a b, pend a b → next a = none ∧ ∃ l r, nodes = l ++ a :: b :: r

theorem Linked.singleton (hnext : next a = none) (hpend : ∀ a b, ¬ pend a b) :
    Linked next pend [a] where
  nodup := List.nodup_singleton a
  chain := .singleton a
  last := by
    rintro b ⟨⟩
    exact hnext
  pending b c h := absurd h (hpend b c)

/-- What is not on the chain does not matter. -/
theorem Linked.congr {next' : ν → Option ν} (h : Linked next pend nodes)
    (hnext : ∀ a ∈ nodes, next' a = next a) (hpend : ∀ a b, pend' a b ↔ pend a b) :
    Linked next' pend' nodes where
  nodup := h.nodup
  chain := by
    rw [List.isChain_iff_forall_rel_of_append_cons_cons] at *
    rintro a b l r rfl
    have hab := List.isChain_iff_forall_rel_of_append_cons_cons.mp h.chain rfl
    rwa [hnext a (by simp), hpend a b]
  last a ha := by
    rw [hnext a (List.mem_of_getLast? ha)]
    exact h.last a ha
  pending a b hab := by
    obtain ⟨hnone, l, r, hnodes⟩ := h.pending a b ((hpend a b).mp hab)
    refine ⟨?_, l, r, hnodes⟩
    rw [hnext a (by simp [hnodes])]
    exact hnone

/-- A node becomes the last one; the link to it has still to be written. -/
theorem Linked.exchange (h : Linked next pend nodes) (hx : x ∉ nodes) (hnext : next x = none)
    (hlast : nodes.getLast? = some c)
    (hpend : ∀ a b, pend' a b ↔ pend a b ∨ a = c ∧ b = x) : Linked next pend' (nodes ++ [x]) where
  nodup := by
    rw [← List.concat_eq_append]
    exact h.nodup.concat hx
  chain := by
    rw [List.isChain_append]
    refine ⟨h.chain.imp fun a b hab => ?_, .singleton x, ?_⟩
    · rw [hpend]
      exact hab.imp_right fun hab => ⟨hab.1, .inl hab.2⟩
    · rintro a ha y ⟨⟩
      obtain rfl : c = a := Option.some.inj (hlast.symm.trans ha)
      exact .inr ⟨h.last c hlast, (hpend c x).mpr (.inr ⟨rfl, rfl⟩)⟩
  last a ha := by
    rw [List.getLast?_concat] at ha
    cases ha
    exact hnext
  pending a b hab := by
    rcases (hpend a b).mp hab with hab | ⟨rfl, rfl⟩
    · obtain ⟨hnone, l, r, rfl⟩ := h.pending a b hab
      exact ⟨hnone, l, r ++ [x], by simp⟩
    · obtain ⟨l, rfl⟩ := List.getLast?_eq_some_iff.mp hlast
      exact ⟨h.last a hlast, l, [], by simp⟩

/-- A node of a chain has one neighbour on each side. -/
theorem neighbours_unique {l r l' r' : List ν} {b' : ν} (hnodup : nodes.Nodup)
    (h : nodes = l ++ a :: b :: r) (h' : nodes = l' ++ c :: b' :: r') : a = c ↔ b = b' := by
  have hat {l r : List ν} {a b : ν} (h : nodes = l ++ a :: b :: r) :
      l.length + 1 < nodes.length ∧ nodes[l.length]? = some a ∧
        nodes[l.length + 1]? = some b := by
    simp [h]
  obtain ⟨hlt, ha, hb⟩ := hat h
  obtain ⟨-, hc, hb'⟩ := hat h'
  constructor
  · rintro rfl
    have hindex := (List.getElem?_inj (by omega) hnodup).mp (ha.trans hc.symm)
    rw [← hindex, hb] at hb'
    exact Option.some.inj hb'
  · rintro rfl
    have hindex := (List.getElem?_inj hlt hnodup).mp (hb.trans hb'.symm)
    rw [← Nat.succ.inj hindex, ha] at hc
    exact Option.some.inj hc

/-- A link is written. -/
theorem Linked.link [DecidableEq ν] (h : Linked next pend nodes) (hab : pend a b)
    (hpend : ∀ c d, pend' c d ↔ pend c d ∧ d ≠ b) :
    Linked (Function.update next a (some b)) pend' nodes := by
  obtain ⟨-, l, r, hnodes⟩ := h.pending a b hab
  refine ⟨h.nodup, ?_, ?_, ?_⟩
  · rw [List.isChain_iff_forall_rel_of_append_cons_cons]
    intro c d l' r' hnodes'
    have hneighbours := neighbours_unique h.nodup hnodes' hnodes
    by_cases hc : c = a
    · obtain rfl := hneighbours.mp hc
      exact .inl (by rw [hc, Function.update_self])
    · rw [Function.update_of_ne hc, hpend]
      have hcd := List.isChain_iff_forall_rel_of_append_cons_cons.mp h.chain hnodes'
      exact hcd.imp_right fun hcd => ⟨hcd.1, hcd.2, fun hd => hc (hneighbours.mpr hd)⟩
  · intro c hlast
    have hc : c ≠ a := by
      rintro rfl
      obtain ⟨l', hnodes'⟩ := List.getLast?_eq_some_iff.mp hlast
      have hnodup := h.nodup
      have hindex : nodes[l.length]? = nodes[l'.length]? := by
        conv_rhs => rw [hnodes']
        conv_lhs => rw [hnodes]
        simp
      have hlt : l.length < nodes.length := by simp [hnodes]
      have hsame := (List.getElem?_inj hlt hnodup).mp hindex
      have hlength : l.length + (r.length + 2) = l'.length + 1 := by
        have := congrArg List.length (hnodes.symm.trans hnodes')
        simpa using this
      omega
    rw [Function.update_of_ne hc]
    exact h.last c hlast
  · intro c d hcd
    obtain ⟨hcd, hd⟩ := (hpend c d).mp hcd
    obtain ⟨hnone, l', r', hnodes'⟩ := h.pending c d hcd
    refine ⟨?_, l', r', hnodes'⟩
    rw [Function.update_of_ne]
    · exact hnone
    · exact fun hc => hd ((neighbours_unique h.nodup hnodes' hnodes).mp hc)

/-- The first node leaves across its link. -/
theorem Linked.advance (h : Linked next pend (a :: b :: rest)) (hab : next a = some b) :
    Linked next pend (b :: rest) where
  nodup := (List.nodup_cons.mp h.nodup).2
  chain := h.chain.tail
  last c hc := h.last c (by rwa [List.getLast?_cons_cons])
  pending c d hcd := by
    obtain ⟨hnone, l, r, hnodes⟩ := h.pending c d hcd
    refine ⟨hnone, ?_⟩
    cases l with
    | nil =>
      cases hnodes
      rw [hab] at hnone
      cases hnone
    | cons e l =>
      rw [List.cons_append, List.cons.injEq] at hnodes
      exact ⟨l, r, hnodes.2⟩

/-- A link leads to the second node. -/
theorem Linked.of_next_eq_some (h : Linked next pend (a :: rest)) (hab : next a = some b) :
    ∃ rest', rest = b :: rest' := by
  cases rest with
  | nil =>
    rw [h.last a rfl] at hab
    cases hab
  | cons c rest' =>
    rcases (List.isChain_cons_cons.mp h.chain).1 with hac | ⟨hnone, -⟩
    · rw [hac] at hab
      cases hab
      exact ⟨rest', rfl⟩
    · rw [hnone] at hab
      cases hab

/-- Where there is no link, there is no second node or the link to it has still to be written. -/
theorem Linked.of_next_eq_none (h : Linked next pend (a :: rest)) (hnone : next a = none) :
    rest = [] ∨ ∃ b rest', rest = b :: rest' ∧ pend a b := by
  cases rest with
  | nil => exact .inl rfl
  | cons c rest' =>
    rcases (List.isChain_cons_cons.mp h.chain).1 with hac | ⟨-, hac⟩
    · rw [hac] at hnone
      cases hnone
    · exact .inr ⟨c, rest', rfl, hac⟩

/-- A chain that ends where it begins is one node. -/
theorem Linked.eq_singleton (h : Linked next pend (a :: rest))
    (hlast : (a :: rest).getLast? = some a) : rest = [] := by
  cases rest with
  | nil => rfl
  | cons b rest =>
    rw [List.getLast?_cons_cons] at hlast
    exact absurd (List.mem_of_getLast? hlast) (List.nodup_cons.mp h.nodup).1

end LinkedQueue
