import WgTcp.AllowedIps.Table
import WgTcp.Foundation.DepthFirst

/-!
# The stacks of the AllowedIPs trie

`root_free_rcu` and `root_remove_peer_lists` walk a trie with an array of
`MAX_ALLOWEDIPS_DEPTH` pointers and no check but a warning of debug builds. The
prefixes on a path get longer, and of a node on the stack only one sibling
waits below it, so that a trie of IPv6 prefixes fills the array at most.
-/

namespace WgTcp

namespace AllowedIps

open PrefixTree

variable {w : Nat}

abbrev maxAllowedipsDepth : Nat := 129

/-- In debug builds nothing is pushed on a full stack. -/
def pushRcu (debug : Bool) (stack : List NodeId) : Option NodeId → List NodeId
  | none => stack
  | some node =>
      if debug && decide (maxAllowedipsDepth ≤ stack.length) then stack else node :: stack

namespace Trie

variable (t : Trie w)

/-- The loop of `root_free_rcu` and `root_remove_peer_lists`: the nodes in the order in which they
are taken from the stack, and the greatest `len`, which was `used` so far. -/
def stackLoop (debug : Bool) : Nat → List NodeId → Nat → List NodeId × Nat
  | 0, _, used => ([], used)
  | _ + 1, [], used => ([], used)
  | fuel + 1, node :: stack, used =>
      let first := pushRcu debug stack ((t.node node).bit false)
      let second := pushRcu debug first ((t.node node).bit true)
      let r := stackLoop debug fuel second (max used (max first.length second.length))
      (node :: r.1, r.2)

/-- The nodes that `root_free_rcu` frees, and the slots of its stack that it uses. -/
def rootFreeRcu (debug : Bool) (root : NodeId) : List NodeId × Nat :=
  t.stackLoop debug (t.next + 1) [root] 1

/-- A node points to another one. -/
def Points (x y : NodeId) : Prop := ∃ b, (t.node x).bit b = some y

end Trie

/-! ## Prefix trees as binary trees -/

def shape : KeyTree w → BinaryTree NodeId
  | .empty => .nil
  | .node id _ _ _ left right => .node id (shape left) (shape right)

theorem nodes_shape_perm (tree : KeyTree w) : (DepthFirst.nodes (shape tree)).Perm tree.ids := by
  induction tree with
  | empty => exact .nil
  | node id key len value left right ihl ihr =>
    exact .cons id ((ihr.append ihl).trans List.perm_append_comm)

theorem Trie.Rep.unfolds {t : Trie w} {s : Slot} {tree : KeyTree w} (h : t.Rep s tree) :
    DepthFirst.Unfolds (fun x b => (t.node x).bit b) (t.read s) (shape tree) := by
  induction tree generalizing s with
  | empty => exact h
  | node id key len value left right ihl ihr => exact ⟨h.1, ihl h.2.2.1, ihr h.2.2.2⟩

/-- The lengths of the prefixes are ranks. -/
theorem Trie.Rep.ranked {t : Trie w} {s : Slot} {tree : KeyTree w} {c : Nat} {p : Nat → Bool}
    (h : t.Rep s tree) (hfits : tree.Fits keyBit w c p) :
    DepthFirst.Ranked (fun x => (t.data x).cidr) w c (shape tree) := by
  induction tree generalizing s c p with
  | empty => trivial
  | node id key len value left right ihl ihr =>
    obtain ⟨-, hdata, hleft, hright⟩ := h
    obtain ⟨⟨hc, hw, -⟩, -, hfitsl, hfitsr⟩ := hfits
    have hcidr : (t.data id).cidr = len := by
      rw [hdata]
      rfl
    simp only [shape, DepthFirst.Ranked, hcidr]
    exact ⟨hc, hw, ihl hleft hfitsl, ihr hright hfitsr⟩

/-! ## The loops -/

section Loops

variable (t : Trie w)

theorem stackLoop_eq_walk (fuel : Nat) (stack : List NodeId) (used : Nat) :
    t.stackLoop false fuel stack used =
      DepthFirst.walk (fun x b => (t.node x).bit b) fuel stack used := by
  have hpush (stack : List NodeId) (p : Option NodeId) :
      pushRcu false stack p = DepthFirst.push p stack := by
    cases p <;> rfl
  induction fuel generalizing stack used with
  | zero => rfl
  | succ fuel ih =>
    cases stack with
    | nil => rfl
    | cons node stack => simp only [Trie.stackLoop, DepthFirst.walk, hpush, ih]

theorem used_le_stackLoop (debug : Bool) (fuel : Nat) (stack : List NodeId) (used : Nat) :
    used ≤ (t.stackLoop debug fuel stack used).2 := by
  induction fuel generalizing stack used with
  | zero => exact le_rfl
  | succ fuel ih =>
    cases stack with
    | nil => exact le_rfl
    | cons node stack => exact (le_max_left _ _).trans (ih _ _)

/-- If the array is large enough, the check of debug builds never fires. -/
theorem stackLoop_debug (fuel : Nat) (stack : List NodeId) (used : Nat)
    (h : (t.stackLoop false fuel stack used).2 ≤ maxAllowedipsDepth) :
    t.stackLoop true fuel stack used = t.stackLoop false fuel stack used := by
  have hpush (stack : List NodeId) (p : Option NodeId)
      (h : (pushRcu false stack p).length ≤ maxAllowedipsDepth) :
      pushRcu true stack p = pushRcu false stack p := by
    cases p with
    | none => rfl
    | some node =>
      have hlt : ¬ maxAllowedipsDepth ≤ stack.length := by
        simp only [pushRcu, Bool.false_and, Bool.false_eq_true, if_false, List.length_cons] at h
        omega
      simp [pushRcu, hlt]
  induction fuel generalizing stack used with
  | zero => rfl
  | succ fuel ih =>
    cases stack with
    | nil => rfl
    | cons node stack =>
      have hused := (used_le_stackLoop t false fuel _ _).trans h
      simp only [Trie.stackLoop] at h hused ⊢
      rw [hpush stack _ (by omega), hpush _ _ (by omega), ih _ _ h]

/-- `root_remove_peer_lists` takes the nodes from the stack in the same order. -/
theorem rootRemovePeerListsLoop_eq_foldl (f : Family) (fuel : Nat) (stack : List NodeId)
    (used : Nat) (lists : PeerLists) :
    rootRemovePeerListsLoop f t fuel stack lists =
      (t.stackLoop false fuel stack used).1.foldl
        (fun lists node => if (t.node node).peer.isSome then lists.del (f, node) else lists)
        lists := by
  have hpush (stack : List NodeId) (p : Option NodeId) :
      pushRcu false stack p = p.toList ++ stack := by
    cases p <;> rfl
  induction fuel generalizing stack used lists with
  | zero => rfl
  | succ fuel ih =>
    cases stack with
    | nil => rfl
    | cons node stack =>
      simp only [rootRemovePeerListsLoop, Trie.stackLoop, hpush, List.foldl_cons]
      exact ih _ _ _

end Loops

section Shaped

variable {T : Table} {F : Forest} {f : Family} {root : NodeId}

/-- The loop visits the tree of a family. -/
theorem Shaped.rootFreeRcu_eq (h : Shaped T F) (hroot : (T.trie f).root = some root) :
    (T.trie f).rootFreeRcu false root =
      (DepthFirst.nodes (shape (F f)), max 1 (DepthFirst.slots (shape (F f)))) := by
  have hrep := (h.rep f).unfolds
  have hread : (T.trie f).read .root = some root := hroot
  rw [hread] at hrep
  have hlength : (DepthFirst.nodes (shape (F f))).length ≤ (T.trie f).next := by
    rw [(nodes_shape_perm (F f)).length_eq]
    exact length_ids_le (h.nodup f) (h.lt_next f)
  have hwalk := DepthFirst.walk_eq [(some root, shape (F f))] ((T.trie f).next + 1) 1
    (by simpa using hrep) (by simpa using Nat.lt_succ_of_le hlength)
    (by simpa using hrep.width_eq.le)
  simpa [Trie.rootFreeRcu, stackLoop_eq_walk, DepthFirst.stackSlots] using hwalk

theorem Shaped.slots_le (h : Shaped T F) (f : Family) :
    DepthFirst.slots (shape (F f)) ≤ f.bits + 1 :=
  ((h.rep f).ranked (h.fits f)).slots_le

end Shaped

/-! ## Tables under memory pressure -/

/-- An insertion of which `mem` allocations succeed. -/
def Table.insertWith (T : Table) (mem : Nat) (f : Family) (ip : BitVec f.bits) (cidr : Nat)
    (peer : PeerId) : Ret × Table :=
  let r := add f mem (T.trie f) T.lists ip cidr peer
  (r.1, ⟨Function.update T.trie f r.2.1, r.2.2, T.seq + 1⟩)

def Table.applyWith (T : Table) (mem : Nat) : Op → Table
  | .insert f ip cidr peer => (T.insertWith mem f ip cidr peer).2
  | op => T.apply op

section Memory

theorem PeerLists.del_addTail {lists : PeerLists} {item : Item} (h : ∀ p, item ∉ lists p)
    (peer : PeerId) : (lists.addTail peer item).del item = lists := by
  have hkeep (p : PeerId) : (lists p).filter (· ≠ item) = lists p := by
    apply List.filter_eq_self.mpr
    intro i hi
    exact decide_eq_true fun heq => h p (heq ▸ hi)
  funext p
  by_cases hp : p = peer
  · subst hp
    simpa [PeerLists.del, PeerLists.addTail] using hkeep p
  · simpa [PeerLists.del, PeerLists.addTail, hp] using hkeep p

/-- The end of `add`, behind the search for an exact match. -/
theorem attach_mem (f : Family) (mem : Nat) (t : Trie w) {lists : PeerLists} (key : BitVec w)
    (cidr : Nat) (peer : PeerId) (hfresh : ∀ p, (f, t.next) ∉ lists p) (parent : Option NodeId) :
    let attached (mem : Nat) : Ret × Trie w × PeerLists :=
      if mem = 0 then (.enomem, t, lists)
      else
        match t.attach key cidr peer parent (decide (1 < mem)) with
        | some t' => (.ok, t', lists.addTail peer (f, t.next))
        | none => (.enomem, t, (lists.addTail peer (f, t.next)).del (f, t.next))
    (attached mem).2 = (attached 2).2 ∨ (attached mem).2 = (t, lists) := by
  intro attached
  rcases mem with _ | _ | mem
  · exact .inr rfl
  · -- only a branch needs a second allocation
    cases hattach : t.attach key cidr peer parent false with
    | none =>
      right
      simp [attached, hattach, PeerLists.del_addTail hfresh]
    | some t' =>
      left
      have hboth : t.attach key cidr peer parent true = some t' := by
        simp only [Trie.attach] at hattach ⊢
        split at hattach
        · exact hattach
        · split at hattach
          · next hcommon => rwa [if_pos hcommon]
          · cases hattach
      simp [attached, hattach, hboth]
  · left
    simp [attached]

/-- A failed allocation leaves the trie and the lists as they were. -/
theorem add_mem (f : Family) (mem : Nat) (t : Trie w) {lists : PeerLists} (key : BitVec w)
    (cidr : Nat) (peer : PeerId) (hfresh : ∀ p, (f, t.next) ∉ lists p) :
    (add f mem t lists key cidr peer).2 = (add f 2 t lists key cidr peer).2 ∨
      (add f mem t lists key cidr peer).2 = (t, lists) := by
  unfold add
  by_cases hc : w < cidr
  · simp [hc]
  · rw [if_neg hc, if_neg hc]
    cases hroot : t.root with
    | none =>
      by_cases hmem : mem = 0
      · simp [hmem]
      · simp [hmem]
    | some root =>
      have hrest := attach_mem f mem t key cidr peer hfresh
      rcases t.nodePlacement key cidr with ⟨_ | _, _ | node⟩
      · exact hrest none
      · exact hrest (some node)
      · exact hrest none
      · exact .inl rfl

theorem Shaped.applyWith {T : Table} {F : Forest} {R : RefTable} (h : Shaped T F)
    (hR : Reflects F R) (mem : Nat) (op : Op) :
    ∃ F' R', Shaped (T.applyWith mem op) F' ∧ Reflects F' R' := by
  obtain ⟨F', hF', hR'⟩ := h.apply hR op
  cases op with
  | insert f ip cidr peer =>
    have happly : T.apply (.insert f ip cidr peer) = (T.insertFamily f ip cidr peer).2 := by
      cases f <;> rfl
    rcases add_mem f mem (T.trie f) ip cidr peer (h.fresh f) with hadd | hadd
    · refine ⟨F', _, ?_, hR'⟩
      rw [happly] at hF'
      simpa [Table.applyWith, Table.insertWith, Table.insertFamily, hadd] using hF'
    · refine ⟨F, R, ?_, hR⟩
      simpa [Table.applyWith, Table.insertWith, hadd] using h.seq (T.seq + 1)
  | remove f ip cidr peer => exact ⟨F', _, hF', hR'⟩
  | removeByPeer peer => exact ⟨F', _, hF', hR'⟩
  | free => exact ⟨F', _, hF', hR'⟩

/-- The table after some operations. -/
def Table.after (ops : List (Op × Nat)) : Table :=
  ops.foldl (fun T op => T.applyWith op.2 op.1) .init

theorem shaped_after (ops : List (Op × Nat)) : ∃ F, Shaped (Table.after ops) F := by
  have hrun (T : Table) (h : ∃ F R, Shaped T F ∧ Reflects F R) :
      ∃ F R, Shaped (ops.foldl (fun T op => T.applyWith op.2 op.1) T) F ∧ Reflects F R := by
    induction ops generalizing T with
    | nil => exact h
    | cons op rest ih =>
      obtain ⟨F, R, hF, hR⟩ := h
      exact ih _ (hF.applyWith hR op.2 op.1)
  obtain ⟨F, R, hF, -⟩ := hrun .init ⟨_, _, Shaped.init, Reflects.init⟩
  exact ⟨F, hF⟩

end Memory

/-! ## A trie that fills the stack -/

section Comb

/-- An IPv6 address of which the first `n` bits are set. -/
def onesKey (n : Nat) : BitVec Family.inet6.bits := maskKey (BitVec.allOnes _) n

theorem keyBit_onesKey {n i : Nat} (hn : n ≤ 128) : keyBit (onesKey n) i = decide (i < n) := by
  have hbits : n ≤ Family.inet6.bits := hn
  rw [onesKey, keyBit_maskKey _ hbits, keyBit, BitVec.getMsbD_allOnes]
  by_cases hi : i < n
  · simp [hi, show i < Family.inet6.bits from hi.trans_le hbits]
  · simp [hi]

theorem commonBits_onesKey {n : Nat} (hn : n < 128) :
    commonBits (onesKey (n + 1)) (onesKey n) = n := by
  have hagree (m : Nat) (hm : m ≤ 128) :
      m ≤ commonBits (onesKey (n + 1)) (onesKey n) ↔ m ≤ n := by
    have hbits : m ≤ Family.inet6.bits := hm
    rw [le_commonBits_iff Family.inet6.bits_cases _ _ m hbits]
    constructor
    · intro h
      by_contra hlt
      have := h n (by omega)
      simp [keyBit_onesKey, hn, hn.le] at this
    · intro h i hi
      rw [keyBit_onesKey hn, keyBit_onesKey hn.le]
      simp [show i < n by omega, show i < n + 1 by omega]
  have hle := (hagree n hn.le).mpr le_rfl
  by_contra hne
  have := (hagree (n + 1) hn).mp (by omega)
  omega

/-- A prefix that leaves the root one bit earlier gets a branch above it. -/
theorem insert_onesKey {n : Nat} (hn : n < 128) {id : NodeId} {value : Option PeerId}
    {tree left right : KeyTree Family.inet6.bits}
    (htree : tree = .node id (onesKey (n + 1)) (n + 1) value left right) (peer : PeerId)
    (x y : NodeId) :
    tree.insert keyBit commonBits (onesKey n) 128 peer x y =
      .node y (onesKey n) n none (.node x (onesKey n) 128 (some peer) .empty .empty) tree := by
  have hoff : ¬ Agree keyBit (n + 1) (onesKey (n + 1)) (onesKey n) := by
    intro h
    have := h n (by omega)
    simp [keyBit_onesKey, hn, hn.le] at this
  have hbit : keyBit (onesKey n) n = false := by simp [keyBit_onesKey hn.le]
  subst htree
  simp [Tree.insert, hoff, commonBits_onesKey hn, hn.le, hn.ne, hbit, Tree.branch]

/-- The insertions of `n` prefixes, from the one that leaves the others last. -/
def combOps (n : Nat) : List (Op × Nat) :=
  (List.range n).map fun i => (.insert .inet6 (onesKey (128 - i)) 128 1, 2)

theorem combOps_succ (n : Nat) :
    Table.after (combOps (n + 1)) =
      ((Table.after (combOps n)).insertFamily .inet6 (onesKey (128 - n)) 128 1).2 := by
  simp only [Table.after, combOps, List.range_succ, List.map_append, List.foldl_append]
  rfl

theorem after_combOps (n : Nat) (hn : n ≤ 128) :
    ∃ F id value left right, Shaped (Table.after (combOps (n + 1))) F ∧
      F .inet6 = .node id (onesKey (128 - n)) (128 - n) value left right ∧
      DepthFirst.slots (shape (F .inet6)) = n + 1 := by
  induction n with
  | zero =>
    rw [combOps_succ]
    exact ⟨_, 0, some 1, .empty, .empty, Shaped.init.insert .inet6 (onesKey 128) 1 (le_refl 128),
      rfl, rfl⟩
  | succ n ih =>
    obtain ⟨F, id, value, left, right, hF, htree, hslots⟩ := ih (by omega)
    have hcomb : 128 - n = 128 - (n + 1) + 1 := by omega
    rw [hcomb] at htree
    rw [combOps_succ]
    have hinsert := insert_onesKey (by omega) htree 1
    refine ⟨_, _, _, _, _, hF.insert .inet6 (onesKey (128 - (n + 1))) 1 (le_refl 128),
      (Function.update_self ..).trans (hinsert _ _), ?_⟩
    rw [Function.update_self, hinsert]
    simp only [shape, DepthFirst.slots, DepthFirst.width, hslots]
    omega

end Comb

/-- For every trie that insertions and removals build, with or without memory, and in builds with
and without the check: the loops of `root_free_rcu` and `root_remove_peer_lists` use no more slots
than the array has, and they visit every node that is linked to the root, each once. Some trie of
IPv6 prefixes uses all slots. -/
theorem allowedips_stack_bound :
    (∀ (ops : List (Op × Nat)) (f : Family) (root : NodeId) (debug : Bool),
      ((Table.after ops).trie f).root = some root →
        let t := (Table.after ops).trie f
        (t.rootFreeRcu debug root).2 ≤ maxAllowedipsDepth ∧
          (t.rootFreeRcu debug root).1.Nodup ∧
          (∀ node, node ∈ (t.rootFreeRcu debug root).1 ↔
            Relation.ReflTransGen t.Points root node) ∧
          ∀ lists, rootRemovePeerLists f t root lists =
            (t.rootFreeRcu debug root).1.foldl
              (fun lists node => if (t.node node).peer.isSome then lists.del (f, node) else lists)
              lists) ∧
      ∃ ops root, ((Table.after ops).trie .inet6).root = some root ∧
        ∀ debug, (((Table.after ops).trie .inet6).rootFreeRcu debug root).2 =
          maxAllowedipsDepth := by
  constructor
  · intro ops f root debug hroot t
    obtain ⟨F, hF⟩ := shaped_after ops
    have hfree : t.rootFreeRcu false root = _ := hF.rootFreeRcu_eq hroot
    have hslots : (t.rootFreeRcu false root).2 ≤ maxAllowedipsDepth := by
      have hle := hF.slots_le f
      have hbits : f.bits ≤ 128 := by cases f <;> decide
      rw [hfree]
      exact max_le (by decide) (hle.trans (Nat.succ_le_succ hbits))
    have hdebug : t.rootFreeRcu debug root = t.rootFreeRcu false root := by
      cases debug with
      | false => rfl
      | true => exact stackLoop_debug t _ _ _ hslots
    rw [hdebug]
    refine ⟨hslots, ?_, ?_, ?_⟩
    · rw [hfree]
      exact (nodes_shape_perm (F f)).nodup_iff.mpr (hF.nodup f)
    · intro node
      rw [hfree]
      have hread : t.read .root = some root := hroot
      have hunfolds := (hF.rep f).unfolds
      rw [hread] at hunfolds
      rw [hunfolds.mem_nodes_iff]
      constructor
      · rintro ⟨x, hx, hlinked⟩
        cases hx
        exact hlinked
      · intro hlinked
        exact ⟨root, rfl, hlinked⟩
    · exact rootRemovePeerListsLoop_eq_foldl t f _ _ 1
  · obtain ⟨F, id, value, left, right, hF, htree, hslots⟩ := after_combOps 128 le_rfl
    have hroot : ((Table.after (combOps 129)).trie .inet6).root = some id := by
      have hrep := hF.rep .inet6
      rw [htree] at hrep
      exact hrep.1
    have hfree := hF.rootFreeRcu_eq hroot
    have hused : (((Table.after (combOps 129)).trie .inet6).rootFreeRcu false id).2 = 129 := by
      rw [hfree, hslots]
      rfl
    refine ⟨combOps 129, id, hroot, ?_⟩
    intro debug
    cases debug with
    | false => exact hused
    | true =>
      rw [Trie.rootFreeRcu, stackLoop_debug _ _ _ _ hused.le]
      exact hused

-- 10.0.0.0/8 and 11.0.0.0/8 below a branch.
theorem allowedips_stack_bound_branch :
    let t := (Table.after [(.insert .inet 0x0a000000#32 8 1, 2),
      (.insert .inet 0x0b000000#32 8 2, 2)]).trie .inet
    t.root = some 2 ∧ (t.rootFreeRcu false 2).1.Nodup ∧
      (t.rootFreeRcu false 2).2 ≤ maxAllowedipsDepth := by
  intro t
  have hroot : t.root = some 2 := by decide +kernel
  have h := allowedips_stack_bound.1 _ .inet 2 false hroot
  exact ⟨hroot, h.2.1, h.1⟩

end AllowedIps

end WgTcp
