import Mathlib

/-!
# Depth-first traversal with an explicit stack

Nodes point to two children. A loop takes a node from the stack and pushes its
children, the first one below the second. If the pointers unfold to a tree, the
loop visits every node once, and the number of slots that it needs is `slots` of
the tree; along a path on which a bounded rank grows, that is no more than the
ranks that are left.
-/

namespace DepthFirst

variable {ι : Type*}

/-- Push what a pointer points to, if anything. -/
def push (p : Option ι) (stack : List ι) : List ι := p.toList ++ stack

/-- The nodes in the order in which they are taken from the stack, and the greatest number of slots
in use, of which there were `used` before. -/
def walk (child : ι → Bool → Option ι) : ℕ → List ι → ℕ → List ι × ℕ
  | 0, _, used => ([], used)
  | _ + 1, [], used => ([], used)
  | fuel + 1, x :: stack, used =>
      let first := push (child x false) stack
      let second := push (child x true) first
      let (visited, used) := walk child fuel second (max used (max first.length second.length))
      (x :: visited, used)

/-- The nodes from a pointer on form a tree. -/
def Unfolds (child : ι → Bool → Option ι) : Option ι → BinaryTree ι → Prop
  | p, .nil => p = none
  | p, .node x left right =>
      p = some x ∧ Unfolds child (child x false) left ∧ Unfolds child (child x true) right

/-- A node, then its second subtree, then its first. -/
def nodes : BinaryTree ι → List ι
  | .nil => []
  | .node x left right => x :: (nodes right ++ nodes left)

/-- The slots that the root of a tree takes. -/
def width : BinaryTree ι → ℕ
  | .nil => 0
  | .node .. => 1

/-- The slots that the traversal of a tree takes: while the second subtree is visited, the first one
waits. -/
def slots : BinaryTree ι → ℕ
  | .nil => 0
  | .node _ left right => max 1 (max (slots right + width left) (slots left))

/-- The slots for the trees on a stack. -/
def stackSlots : List (BinaryTree ι) → ℕ
  | [] => 0
  | tree :: rest => max (slots tree + (rest.map width).sum) (stackSlots rest)

variable {child : ι → Bool → Option ι} {p : Option ι} {tree : BinaryTree ι}

theorem width_le_slots (tree : BinaryTree ι) : width tree ≤ slots tree := by
  cases tree with
  | nil => exact le_rfl
  | node x left right => exact le_max_left _ _

theorem sum_width_le_stackSlots (trees : List (BinaryTree ι)) :
    (trees.map width).sum ≤ stackSlots trees := by
  cases trees with
  | nil => exact le_rfl
  | cons tree rest =>
    have := width_le_slots tree
    simp only [List.map_cons, List.sum_cons, stackSlots]
    omega

theorem Unfolds.width_eq (h : Unfolds child p tree) : width tree = p.toList.length := by
  cases tree with
  | nil =>
    have hp : p = none := h
    rw [hp]
    rfl
  | node x left right =>
    rw [h.1]
    rfl

theorem length_pointers (stack : List (Option ι × BinaryTree ι))
    (h : ∀ x ∈ stack, Unfolds child x.1 x.2) :
    (stack.flatMap fun x => x.1.toList).length = (stack.map fun x => width x.2).sum := by
  rw [List.length_flatMap]
  congr 1
  apply List.map_congr_left
  intro x hx
  exact (h x hx).width_eq.symm

/-- The loop on pointers that unfold to trees. The induction is on the nodes and the trees that are
left. -/
theorem walk_eq (stack : List (Option ι × BinaryTree ι)) (fuel used : ℕ)
    (hstack : ∀ x ∈ stack, Unfolds child x.1 x.2)
    (hfuel : (stack.map fun x => (nodes x.2).length).sum < fuel)
    (hused : (stack.map fun x => width x.2).sum ≤ used) :
    walk child fuel (stack.flatMap fun x => x.1.toList) used =
      (stack.flatMap fun x => nodes x.2, max used (stackSlots (stack.map Prod.snd))) := by
  induction hn : (stack.map fun x => 2 * (nodes x.2).length + 1).sum using Nat.strong_induction_on
    generalizing stack fuel used with
  | _ n ih =>
    cases stack with
    | nil => cases fuel <;> simp [walk, stackSlots]
    | cons top rest =>
      obtain ⟨p, tree⟩ := top
      have htop : Unfolds child p tree := hstack (p, tree) List.mem_cons_self
      have hbelow : ∀ x ∈ rest, Unfolds child x.1 x.2 :=
        fun x hx => hstack x (List.mem_cons_of_mem _ hx)
      simp only [List.map_cons, List.sum_cons] at hfuel hn hused
      cases tree with
      | nil =>
        have hnone : p = none := htop
        have h := ih _ (by omega) rest fuel used hbelow (by simpa [nodes] using hfuel)
          (by simpa [width] using hused) rfl
        have hwidth := sum_width_le_stackSlots (rest.map Prod.snd)
        simp only [List.flatMap_cons, hnone, Option.toList_none, List.nil_append, h, nodes,
          List.map_cons, stackSlots, slots]
        congr 1
        omega
      | node x left right =>
        obtain ⟨rfl, hleft, hright⟩ := htop
        simp only [nodes, List.length_cons, List.length_append] at hfuel hn
        obtain ⟨fuel, rfl⟩ : ∃ m, fuel = m + 1 := ⟨fuel - 1, by omega⟩
        have hrest := length_pointers rest hbelow
        have hlengths := And.intro hleft.width_eq hright.width_eq
        have h := ih _ ?_ ((child x true, right) :: (child x false, left) :: rest) fuel
          (max used (max ((child x false).toList ++ rest.flatMap fun x => x.1.toList).length
            ((child x true).toList ++ ((child x false).toList ++
              rest.flatMap fun x => x.1.toList)).length)) ?_ ?_ ?_ rfl
        · simp only [List.flatMap_cons, Option.toList_some, List.singleton_append, walk,
            push] at h ⊢
          rw [h]
          have hright' := width_le_slots right
          simp only [List.map_cons, stackSlots, slots, nodes, List.sum_cons, List.cons_append,
            List.append_assoc, List.length_append, hrest, ← hlengths.1, ← hlengths.2,
            Prod.mk.injEq, true_and, List.map_map, Function.comp_def,
            show width (.node x left right) = 1 from rfl] at hused ⊢
          omega
        · simp only [List.map_cons, List.sum_cons]
          omega
        · intro y hy
          rcases List.mem_cons.mp hy with rfl | hy
          · exact hright
          · rcases List.mem_cons.mp hy with rfl | hy
            · exact hleft
            · exact hbelow y hy
        · simp only [List.map_cons, List.sum_cons]
          omega
        · simp only [List.map_cons, List.sum_cons, List.length_append, hrest, ← hlengths.1,
            ← hlengths.2]
          omega

/-- Every node of a tree is linked to its root, and there are no others. -/
theorem Unfolds.mem_nodes_iff (h : Unfolds child p tree) {y : ι} :
    y ∈ nodes tree ↔
      ∃ x, p = some x ∧ Relation.ReflTransGen (fun a b => ∃ side, child a side = some b) x y := by
  induction tree generalizing p with
  | nil =>
    have hp : p = none := h
    simp [nodes, hp]
  | node x left right ihl ihr =>
    obtain ⟨rfl, hleft, hright⟩ := h
    simp only [nodes, List.mem_cons, List.mem_append, ihl hleft, ihr hright]
    constructor
    · rintro (rfl | ⟨z, hz, hy⟩ | ⟨z, hz, hy⟩)
      · exact ⟨y, rfl, .refl⟩
      · exact ⟨x, rfl, .head ⟨true, hz⟩ hy⟩
      · exact ⟨x, rfl, .head ⟨false, hz⟩ hy⟩
    · rintro ⟨z, hz, hy⟩
      cases hz
      rcases Relation.ReflTransGen.cases_head hy with rfl | ⟨z, ⟨side, hz⟩, hy⟩
      · exact .inl rfl
      · cases side with
        | false => exact .inr (.inr ⟨z, hz, hy⟩)
        | true => exact .inr (.inl ⟨z, hz, hy⟩)

/-- The ranks on every path grow, from `c` at least to `w` at most. -/
def Ranked (rank : ι → ℕ) (w : ℕ) : ℕ → BinaryTree ι → Prop
  | _, .nil => True
  | c, .node x left right =>
      c ≤ rank x ∧ rank x ≤ w ∧ Ranked rank w (rank x + 1) left ∧ Ranked rank w (rank x + 1) right

theorem Ranked.slots_le {rank : ι → ℕ} {w c : ℕ} (h : Ranked rank w c tree) :
    slots tree ≤ w + 1 - c := by
  induction tree generalizing c with
  | nil => exact Nat.zero_le _
  | node x left right ihl ihr =>
    obtain ⟨hc, hw, hleft, hright⟩ := h
    have hl := ihl hleft
    have hr := ihr hright
    have hwidth : width left ≤ 1 := by cases left <;> simp [width]
    simp only [slots]
    omega

end DepthFirst
