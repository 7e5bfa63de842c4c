import WgTcp.AllowedIps.Trie

/-!
# The trie as a prefix tree

`Rep t s tree` says that the nodes reached from a slot `s` form the prefix tree
`tree`, back pointers included. The pointer operations of the source are shown
to be the operations on prefix trees, each with a frame: the slot it was called
for and the nodes below it are all that changes.
-/

namespace WgTcp

namespace AllowedIps

open PrefixTree

variable {w : Nat}

abbrev KeyTree (w : Nat) := Tree NodeId (BitVec w) PeerId

/-- The slot is the root, or part of an allocated node that is not among the given ones. -/
def Slot.Clear (ids : List NodeId) (next : NodeId) : Slot → Prop
  | .root => True
  | .bit id _ => id ∉ ids ∧ id < next

namespace Trie

/-- The fields of a node but its children. -/
def data (t : Trie w) (id : NodeId) : NodeData w := (t.node id).toNodeData

variable {t t' : Trie w} {s s' : Slot} {id x y : NodeId} {b : Bool}

theorem toNodeData_node (t : Trie w) (id : NodeId) : (t.node id).toNodeData = t.data id := rfl

theorem node_bit (t : Trie w) (id : NodeId) (b : Bool) :
    (t.node id).bit b = t.read (.bit id b) := rfl

theorem read_write (t : Trie w) (s s' : Slot) (child : Option NodeId) :
    (t.write s child).read s' = if s' = s then child else t.read s' := by
  cases s with
  | root =>
    cases s' with
    | root => rfl
    | bit id' b' => rfl
  | bit id b =>
    cases s' with
    | root => rfl
    | bit id' b' =>
      by_cases hid : id' = id
      · subst hid
        by_cases hb : b' = b
        · simp [write, read, hb]
        · simp [write, read, hb]
      · simp [write, read, hid]

@[simp] theorem data_write (t : Trie w) (s : Slot) (child : Option NodeId) (id : NodeId) :
    (t.write s child).data id = t.data id := by
  cases s with
  | root => rfl
  | bit id' b =>
    by_cases hid : id = id'
    · subst hid
      simp [write, data]
    · simp [write, data, hid]

@[simp] theorem next_write (t : Trie w) (s : Slot) (child : Option NodeId) :
    (t.write s child).next = t.next := by
  cases s <;> rfl

@[simp] theorem read_setData (t : Trie w) (id : NodeId) (d : NodeData w) (s : Slot) :
    (t.setData id d).read s = t.read s := by
  cases s with
  | root => rfl
  | bit id' b =>
    by_cases hid : id' = id
    · subst hid
      simp [setData, read]
    · simp [setData, read, hid]

theorem data_setData (t : Trie w) (id id' : NodeId) (d : NodeData w) :
    (t.setData id d).data id' = if id' = id then d else t.data id' := by
  by_cases hid : id' = id
  · subst hid
    simp [setData, data]
  · simp [setData, data, hid]

@[simp] theorem next_setData (t : Trie w) (id : NodeId) (d : NodeData w) :
    (t.setData id d).next = t.next := rfl

theorem read_zalloc (t : Trie w) (s : Slot) :
    t.zalloc.read s =
      match s with
      | .root => t.read .root
      | .bit id b => if id = t.next then none else t.read (.bit id b) := by
  cases s with
  | root => rfl
  | bit id b =>
    by_cases hid : id = t.next
    · subst hid
      simp [zalloc, read, zeroNode]
    · simp [zalloc, read, hid]

theorem data_zalloc (t : Trie w) (id : NodeId) :
    t.zalloc.data id = if id = t.next then ⟨none, 0, 0, 0, 0, .root⟩ else t.data id := by
  by_cases hid : id = t.next
  · subst hid
    simp [zalloc, data, zeroNode]
  · simp [zalloc, data, hid]

@[simp] theorem next_zalloc (t : Trie w) : t.zalloc.next = t.next + 1 := rfl

theorem read_connectNode (t : Trie w) (s s' : Slot) (id : NodeId) :
    (t.connectNode s id).read s' = if s' = s then some id else t.read s' := by
  simp [connectNode, read_write, setParent]

theorem data_connectNode (t : Trie w) (s : Slot) (id id' : NodeId) :
    (t.connectNode s id).data id' =
      if id' = id then { t.data id with parentBitPacked := s } else t.data id' := by
  rw [connectNode, data_write, setParent, data_setData]
  rfl

@[simp] theorem next_connectNode (t : Trie w) (s : Slot) (id : NodeId) :
    (t.connectNode s id).next = t.next := by
  simp [connectNode, setParent]

/-- The fields of a connected node. -/
def described (key : BitVec w) (len : Nat) (value : Option PeerId) (s : Slot) : NodeData w :=
  ⟨value, len, bitAtA w len, bitAtB len, key, s⟩

@[simp] theorem described_peer {key : BitVec w} {len : Nat} {value : Option PeerId} :
    (described key len value s).peer = value := rfl

@[simp] theorem described_cidr {key : BitVec w} {len : Nat} {value : Option PeerId} :
    (described key len value s).cidr = len := rfl

@[simp] theorem described_bits {key : BitVec w} {len : Nat} {value : Option PeerId} :
    (described key len value s).bits = key := rfl

theorem choose_described (hw : w = 32 ∨ w = 128) {key : BitVec w} {len : Nat}
    {value : Option PeerId} (hlen : len < w) (k : BitVec w) :
    choose (described key len value s) k = keyBit k len :=
  testBit_keyByte hw k hlen

theorem data_newNode (t : Trie w) (key : BitVec w) (cidr : Nat) (peer : Option PeerId)
    (id : NodeId) :
    (t.newNode key cidr peer).data id =
      if id = t.next then described key cidr peer .root else t.data id := by
  by_cases hid : id = t.next
  · subst hid
    simp [newNode, copyAndAssignCidr, setPeer, data_setData, described]
    simp [setData, zalloc, zeroNode]
  · simp [newNode, copyAndAssignCidr, setPeer, data_setData, data_zalloc, hid]

theorem read_newNode (t : Trie w) (key : BitVec w) (cidr : Nat) (peer : Option PeerId) (s : Slot) :
    (t.newNode key cidr peer).read s = t.zalloc.read s := by
  simp [newNode, copyAndAssignCidr, setPeer]

@[simp] theorem next_newNode (t : Trie w) (key : BitVec w) (cidr : Nat) (peer : Option PeerId) :
    (t.newNode key cidr peer).next = t.next + 1 := rfl

/-! ## Representation -/

/-- The nodes reached from a slot form a tree. -/
def Rep (t : Trie w) : Slot → KeyTree w → Prop
  | s, .empty => t.read s = none
  | s, .node id key len value left right =>
      t.read s = some id ∧ t.data id = described key len value s ∧
        Rep t (.bit id false) left ∧ Rep t (.bit id true) right

/-- All that changes is a slot, the nodes `ids`, and memory that was not allocated. -/
structure Frame (ids : List NodeId) (s : Slot) (t t' : Trie w) : Prop where
  next : t.next ≤ t'.next
  data : ∀ id ∉ ids, id < t.next → t'.data id = t.data id
  read : ∀ s', s' ≠ s → s'.Clear ids t.next → t'.read s' = t.read s'

/-- The tree consists of distinct allocated nodes, none of which has the slot. -/
structure Sits (t : Trie w) (s : Slot) (tree : KeyTree w) : Prop where
  nodup : tree.ids.Nodup
  lt_next : ∀ id ∈ tree.ids, id < t.next
  slot : s.Clear tree.ids t.next

section Rep

variable {key : BitVec w} {len : Nat} {value : Option PeerId} {tree child other : KeyTree w}

theorem rep_branch :
    Rep t s (.branch id key len value b child other) ↔
      t.read s = some id ∧ t.data id = described key len value s ∧
        Rep t (.bit id b) child ∧ Rep t (.bit id !b) other := by
  cases b with
  | false => rfl
  | true => exact and_congr_right fun _ => and_congr_right fun _ => and_comm

theorem Rep.congr (h : Rep t s tree) (hread : t'.read s = t.read s)
    (hdata : ∀ id ∈ tree.ids, t'.data id = t.data id)
    (hbits : ∀ id ∈ tree.ids, ∀ b, t'.read (.bit id b) = t.read (.bit id b)) : Rep t' s tree := by
  induction tree generalizing s with
  | empty => exact hread.trans h
  | node id key len value left right ihl ihr =>
    obtain ⟨hroot, hdesc, hleft, hright⟩ := h
    simp only [Tree.mem_ids_node] at hdata hbits
    refine ⟨hread.trans hroot, (hdata id (.inl rfl)).trans hdesc, ?_, ?_⟩
    · apply ihl hleft (hbits id (.inl rfl) false)
      · exact fun z hz => hdata z (.inr (.inl hz))
      · exact fun z hz => hbits z (.inr (.inl hz))
    · apply ihr hright (hbits id (.inl rfl) true)
      · exact fun z hz => hdata z (.inr (.inr hz))
      · exact fun z hz => hbits z (.inr (.inr hz))

/-- A tree that is hung into another slot; the back pointer of its root follows. -/
theorem Rep.move (h : Rep t s tree) (hnodup : tree.ids.Nodup) (hread : t'.read s' = t.read s)
    (hroot : ∀ id, t.read s = some id → t'.data id = { t.data id with parentBitPacked := s' })
    (hdata : ∀ id ∈ tree.ids, t.read s ≠ some id → t'.data id = t.data id)
    (hbits : ∀ id ∈ tree.ids, ∀ b, t'.read (.bit id b) = t.read (.bit id b)) : Rep t' s' tree := by
  cases tree with
  | empty => exact hread.trans h
  | node id key len value left right =>
    obtain ⟨hid, hdesc, hleft, hright⟩ := h
    obtain ⟨hidl, hidr, -, -, -⟩ := Tree.nodup_ids_node.mp hnodup
    simp only [Tree.mem_ids_node] at hdata hbits
    have hother (z : NodeId) (hz : z ≠ id) : t.read s ≠ some z := by
      rw [hid]
      exact fun h => hz (Option.some.inj h).symm
    refine ⟨hread.trans hid, ?_, ?_, ?_⟩
    · rw [hroot id hid, hdesc]
      rfl
    · apply hleft.congr (hbits id (.inl rfl) false)
      · intro z hz
        exact hdata z (.inr (.inl hz)) (hother z (ne_of_mem_of_not_mem hz hidl))
      · exact fun z hz => hbits z (.inr (.inl hz))
    · apply hright.congr (hbits id (.inl rfl) true)
      · intro z hz
        exact hdata z (.inr (.inr hz)) (hother z (ne_of_mem_of_not_mem hz hidr))
      · exact fun z hz => hbits z (.inr (.inr hz))

/-- A tree outside of a frame is kept. -/
theorem Rep.frame {ids : List NodeId} (h : Rep t s' tree) (hframe : Frame ids s t t')
    (hs' : s' ≠ s) (hclear : s'.Clear ids t.next)
    (hids : ∀ id ∈ tree.ids, id ∉ ids ∧ id < t.next ∧ ∀ b, Slot.bit id b ≠ s) : Rep t' s' tree := by
  apply h.congr (hframe.read s' hs' hclear)
  · exact fun id hid => hframe.data id (hids id hid).1 (hids id hid).2.1
  · intro id hid b
    exact hframe.read _ ((hids id hid).2.2 b) ⟨(hids id hid).1, (hids id hid).2.1⟩

theorem Sits.below (h : Sits t s (.branch id key len value b child other)) :
    Sits t (.bit id b) child := by
  obtain ⟨hidc, -, hchild, -, -⟩ := Tree.nodup_ids_branch.mp h.nodup
  refine ⟨hchild, ?_, hidc, ?_⟩
  · exact fun z hz => h.lt_next z (Tree.mem_ids_branch.mpr (.inr (.inl hz)))
  · exact h.lt_next id (Tree.mem_ids_branch.mpr (.inl rfl))

/-- What happens in a child happens in its parent. -/
theorem Frame.of_child (h : Frame child.ids (.bit id b) t t') :
    Frame (Tree.branch id key len value b child other).ids s t t' := by
  refine ⟨h.next, ?_, ?_⟩
  · intro z hz hlt
    exact h.data z (fun hmem => hz (Tree.mem_ids_branch.mpr (.inr (.inl hmem)))) hlt
  · intro s' _ hclear
    apply h.read
    · rintro rfl
      exact hclear.1 (Tree.mem_ids_branch.mpr (.inl rfl))
    · cases s' with
      | root => trivial
      | bit z b' =>
        exact ⟨fun hmem => hclear.1 (Tree.mem_ids_branch.mpr (.inr (.inl hmem))), hclear.2⟩

/-- A change in a child, seen from its parent. -/
theorem Rep.of_child {child' : KeyTree w} (h : Rep t s (.branch id key len value b child other))
    (hsits : Sits t s (.branch id key len value b child other))
    (hframe : Frame child.ids (.bit id b) t t') (hchild : Rep t' (.bit id b) child') :
    Rep t' s (.branch id key len value b child' other) := by
  obtain ⟨hread, hdesc, -, hother⟩ := rep_branch.mp h
  obtain ⟨hidc, hido, -, -, hdisj⟩ := Tree.nodup_ids_branch.mp hsits.nodup
  have hid := hsits.lt_next id (Tree.mem_ids_branch.mpr (.inl rfl))
  refine rep_branch.mpr ⟨?_, ?_, hchild, ?_⟩
  · rw [← hread]
    have hslot := hsits.slot
    apply hframe.read
    · rintro rfl
      exact hslot.1 (Tree.mem_ids_branch.mpr (.inl rfl))
    · cases s with
      | root => trivial
      | bit z b' =>
        exact ⟨fun hmem => hslot.1 (Tree.mem_ids_branch.mpr (.inr (.inl hmem))), hslot.2⟩
  · rw [← hdesc]
    exact hframe.data id hidc hid
  · apply hother.frame hframe
    · simp
    · exact ⟨hidc, hid⟩
    · intro z hz
      refine ⟨fun hmem => hdisj z hmem hz, ?_, ?_⟩
      · exact hsits.lt_next z (Tree.mem_ids_branch.mpr (.inr (.inr hz)))
      · rintro b' ⟨rfl, -⟩
        exact hido hz

end Rep

/-! ## Lookup -/

section Lookup

variable {tree : KeyTree w} {c : Nat} {p : Nat → Bool} {k : BitVec w}

theorem prefixMatches_described (hw : w = 32 ∨ w = 128) {key : BitVec w} {len : Nat}
    {value : Option PeerId} (hlen : len ≤ w) :
    prefixMatches (described key len value s) k = decide (Agree keyBit len key k) :=
  decide_eq_decide.mpr (le_commonBits_iff hw key k len hlen)

/-- The loop finds the longest prefix below a slot, or keeps what it had found. -/
theorem findNodeLoop_eq (hw : w = 32 ∨ w = 128) (hrep : Rep t s tree)
    (hfits : Tree.Fits keyBit w c p tree) {fuel : Nat} (hfuel : w + 2 ≤ fuel + c)
    (hc : c ≤ w + 1) (found : Option NodeId) :
    (t.findNodeLoop k fuel (t.read s) found).bind (fun id => (t.node id).peer) =
      (tree.lookup keyBit w k).or (found.bind fun id => (t.node id).peer) := by
  induction tree generalizing s c p fuel found with
  | empty =>
    rw [show t.read s = none from hrep]
    cases fuel <;> rfl
  | node id key len value left right ihl ihr =>
    obtain ⟨hread, hdesc, hleft, hright⟩ := hrep
    obtain ⟨⟨hlen, hlenw, -⟩, -, hfitl, hfitr⟩ := hfits
    obtain ⟨fuel, rfl⟩ : ∃ n, fuel = n + 1 := ⟨fuel - 1, by omega⟩
    have hnode : (t.node id).toNodeData = described key len value s := hdesc
    have hpeer : (t.node id).peer = value := congrArg NodeData.peer hnode
    rw [hread, findNodeLoop, Tree.lookup]
    simp only [hnode, prefixMatches_described hw hlenw, described_peer, described_cidr,
      decide_eq_true_eq]
    have hfound : (if value.isSome = true then some id else found).bind
        (fun id => (t.node id).peer) = value.or (found.bind fun id => (t.node id).peer) := by
      cases value with
      | none => rfl
      | some v => exact hpeer
    by_cases hkey : Agree keyBit len key k
    · simp only [if_pos hkey]
      by_cases hend : len = w
      · simp only [if_pos hend]
        exact hfound
      · simp only [if_neg hend]
        rw [choose_described hw (by omega), node_bit]
        cases keyBit k len with
        | true =>
          rw [ihr hright hfitr (by omega) (by omega), hfound]
          exact Option.or_assoc.symm
        | false =>
          rw [ihl hleft hfitl (by omega) (by omega), hfound]
          exact Option.or_assoc.symm
    · simp only [if_neg hkey]
      rfl

/-- `lookup` is the lookup in the tree. -/
theorem lookup_eq (hw : w = 32 ∨ w = 128) (hrep : Rep t .root tree)
    (hfits : Tree.Fits keyBit w 0 p tree) : t.lookup k = tree.lookup keyBit w k := by
  have h := findNodeLoop_eq (k := k) hw hrep hfits (show w + 2 ≤ w + 2 + 0 from le_rfl)
    (Nat.zero_le _) none
  simpa [lookup, findNode, read] using h

end Lookup

/-! ## Insertion -/

section Insert

variable {tree : KeyTree w} {key : BitVec w} {cidr c : Nat} {p : Nat → Bool} {peer : PeerId}
  {parent : Option NodeId}

/-- The tree at a slot has become the tree with one more prefix. -/
structure Inserted (t : Trie w) (s : Slot) (tree : KeyTree w) (key : BitVec w) (cidr : Nat)
    (peer : PeerId) (t' : Trie w) : Prop where
  rep : Rep t' s (tree.insert keyBit commonBits key cidr peer t.next (t.next + 1))
  frame : Frame tree.ids s t t'
  lt_next : ∀ id ∈ (tree.insert keyBit commonBits key cidr peer t.next (t.next + 1)).ids,
    id < t'.next

/-- Connecting to the parent fills the slot that the parent keeps for the key. -/
theorem connectBelow_eq (hparent : ∀ p, parent = some p → t'.data p = t.data p)
    (hbits : (t'.data id).bits = key) :
    t'.connectBelow parent id = t'.connectNode (t.slotBelow key parent) id := by
  cases parent with
  | none => rfl
  | some p =>
    have hp : (t'.node p).toNodeData = (t.node p).toNodeData := hparent p rfl
    have hid : (t'.node id).bits = key := hbits
    simp only [connectBelow, chooseAndConnectNode, slotBelow, hp, hid]

/-- Below an empty slot the new node is alone. -/
theorem newNode_inserted (hs : s.Clear [] t.next) :
    Inserted t s .empty key cidr peer
      ((t.newNode key cidr (some peer)).connectNode s t.next) := by
  have hread (b : Bool) : s ≠ .bit t.next b := by
    rintro rfl
    exact absurd hs.2 (lt_irrefl _)
  refine ⟨⟨?_, ?_, ?_, ?_⟩, ⟨by simp, ?_, ?_⟩, ?_⟩
  · simp [read_connectNode]
  · simp [data_connectNode, data_newNode, described]
  · simp [Rep, read_connectNode, (hread _).symm, read_newNode, read_zalloc]
  · simp [Rep, read_connectNode, (hread _).symm, read_newNode, read_zalloc]
  · intro z _ hz
    rw [data_connectNode, if_neg hz.ne, data_newNode, if_neg hz.ne]
  · intro s' hs' hclear
    rw [read_connectNode, if_neg hs', read_newNode, read_zalloc]
    cases s' with
    | root => rfl
    | bit z b => exact if_neg hclear.2.ne
  · simp [Tree.insert, Tree.ids]

theorem attach_empty (hrep : t.read s = none) (hs : s.Clear [] t.next)
    (hslot : t.slotBelow key parent = s) {mem : Bool} :
    t.attach key cidr peer parent mem =
      some ((t.newNode key cidr (some peer)).connectNode s t.next) := by
  have hsread : (t.newNode key cidr (some peer)).read s = none := by
    rw [read_newNode, read_zalloc]
    cases s with
    | root => exact hrep
    | bit id b => simpa using fun _ => hrep
  simp only [attach, hslot, hsread]

/-- The slot of a parent is part of the parent. -/
theorem parent_clear {ids : List NodeId} {q : NodeId} (hs : s.Clear ids t.next)
    (hslot : t.slotBelow key (some q) = s) : q ∉ ids ∧ q < t.next := by
  subst hslot
  exact hs

theorem data_branchNode (t : Trie w) (key : BitVec w) (cidr : Nat) (id : NodeId) :
    (t.zalloc.copyAndAssignCidr t.next key cidr).data id =
      if id = t.next then described key cidr none .root else t.data id := by
  by_cases hid : id = t.next
  · subst hid
    rw [copyAndAssignCidr, data_setData, if_pos rfl, if_pos rfl, toNodeData_node, data_zalloc,
      if_pos rfl]
    rfl
  · simp [copyAndAssignCidr, data_setData, data_zalloc, hid]

section Attach

variable {d : NodeId} {kd : BitVec w} {len : Nat} {value : Option PeerId} {left right : KeyTree w}
  (hw : w = 32 ∨ w = 128) (hrep : Rep t s (.node d kd len value left right))
  (hsits : Sits t s (.node d kd len value left right))

include hrep hsits in
/-- The tree in the slot hangs below a new node after the back pointer of its root and slots of new
nodes have been written. -/
theorem rep_below_new (hread : t'.read s' = some d)
    (hroot : t'.data d = { t.data d with parentBitPacked := s' })
    (hdata : ∀ z < t.next, z ≠ d → t'.data z = t.data z)
    (hreads : ∀ z < t.next, ∀ b, Slot.bit z b ≠ s → t'.read (.bit z b) = t.read (.bit z b)) :
    Rep t' s' (.node d kd len value left right) := by
  have hd : t.read s = some d := hrep.1
  apply hrep.move hsits.nodup
  · rw [hread, hd]
  · intro id hid
    obtain rfl : d = id := Option.some.inj (hd.symm.trans hid)
    exact hroot
  · intro id hid hne
    apply hdata id (hsits.lt_next id hid)
    rintro rfl
    exact hne hd
  · intro id hid b
    apply hreads id (hsits.lt_next id hid)
    rintro rfl
    exact hsits.slot.1 hid

include hsits in
theorem newNode_read_slot : (t.newNode key cidr (some peer)).read s = t.read s := by
  have hslot := hsits.slot
  rw [read_newNode, read_zalloc]
  cases s with
  | root => rfl
  | bit z b => exact if_neg hslot.2.ne

theorem newNode_read_old {z : NodeId} (hz : z < t.next) (b : Bool) :
    (t.newNode key cidr (some peer)).read (.bit z b) = t.read (.bit z b) := by
  rw [read_newNode, read_zalloc]
  exact if_neg hz.ne

variable (peer) in
include hw hrep hsits in
/-- The new node is the parent of the tree in the slot. -/
theorem attach_above (hc : cidr < w) (hslot : t.slotBelow key parent = s)
    (hcommon : min cidr (commonBits kd key) = cidr) :
    ∃ t', t.attach key cidr peer parent true = some t' ∧
      Rep t' s (.branch t.next key cidr (some peer) (keyBit kd cidr)
        (.node d kd len value left right) .empty) ∧
      Frame (Tree.ids (.node d kd len value left right)) s t t' ∧ t.next < t'.next := by
  have hd : d < t.next := hsits.lt_next d (Tree.mem_ids_node.mpr (.inl rfl))
  have hsnew (b : Bool) : Slot.bit t.next b ≠ s := by
    rintro rfl
    exact lt_irrefl _ hsits.slot.2
  have hsread : (t.newNode key cidr (some peer)).read s = t.read s := newNode_read_slot hsits
  have hold : (t.newNode key cidr (some peer)).data d = described kd len value s := by
    rw [data_newNode, if_neg hd.ne, hrep.2.1]
  have hnew : (t.newNode key cidr (some peer)).data t.next =
      described key cidr (some peer) .root := by
    rw [data_newNode, if_pos rfl]
  set t₁ := t.newNode key cidr (some peer) with ht₁
  set t₂ := t₁.connectNode (.bit t.next (keyBit kd cidr)) d with ht₂
  have hattach : t.attach key cidr peer parent true = some (t₂.connectNode s t.next) := by
    have hconnect : t₂.connectBelow parent t.next = t₂.connectNode s t.next := by
      rw [← hslot]
      apply connectBelow_eq
      · rintro q rfl
        obtain ⟨hq, hlt⟩ := parent_clear hsits.slot hslot
        have hqd : q ≠ d := fun h => hq (Tree.mem_ids_node.mpr (.inl h))
        rw [ht₂, data_connectNode, if_neg hqd, ht₁, data_newNode, if_neg hlt.ne]
      · rw [ht₂, data_connectNode, if_neg hd.ne', hnew]
        rfl
    simp only [attach, hslot, ← ht₁, hsread, hrep.1, toNodeData_node, hold, hnew, described_cidr,
      described_bits, hcommon, if_true, chooseAndConnectNode, choose_described hw hc, ← ht₂,
      hconnect]
  have hread (q : Slot) : (t₂.connectNode s t.next).read q =
      if q = s then some t.next else if q = .bit t.next (keyBit kd cidr) then some d
      else t₁.read q := by
    rw [read_connectNode, ht₂, read_connectNode]
  have hdata (z : NodeId) (hz : z < t.next) : (t₂.connectNode s t.next).data z =
      if z = d then { t.data d with parentBitPacked := .bit t.next (keyBit kd cidr) }
      else t.data z := by
    rw [data_connectNode, if_neg hz.ne, ht₂, data_connectNode, ht₁, data_newNode, data_newNode,
      if_neg hz.ne, if_neg hd.ne]
  refine ⟨_, hattach, rep_branch.mpr ⟨?_, ?_, ?_, ?_⟩, ⟨?_, ?_, ?_⟩, ?_⟩
  · rw [hread, if_pos rfl]
  · rw [data_connectNode, if_pos rfl, ht₂, data_connectNode, if_neg hd.ne', hnew]
    rfl
  · apply rep_below_new hrep hsits
    · rw [hread, if_neg (hsnew _), if_pos rfl]
    · rw [hdata d hd, if_pos rfl]
    · intro z hz hzd
      rw [hdata z hz, if_neg hzd]
    · intro z hz b hzs
      rw [hread, if_neg hzs, if_neg (by simp [hz.ne]), newNode_read_old hz]
  · show _ = none
    rw [hread, if_neg (hsnew _), if_neg (by simp), ht₁, read_newNode, read_zalloc]
    exact if_pos rfl
  · simp [ht₂, ht₁]
  · intro z hz hlt
    rw [hdata z hlt, if_neg fun h => hz (Tree.mem_ids_node.mpr (.inl h))]
  · intro q hq hclear
    cases q with
    | root => rw [hread, if_neg hq, if_neg (by simp), ht₁, read_newNode, read_zalloc]
    | bit z b =>
      rw [hread, if_neg hq, if_neg (by simp [hclear.2.ne]), newNode_read_old hclear.2]
  · simp [ht₂, ht₁]

variable (peer) in
include hw hrep hsits in
/-- A branch is the parent of the new node and of the tree in the slot. -/
theorem attach_branch {m : Nat} (hm : m < w) (hslot : t.slotBelow key parent = s)
    (hcommon : min cidr (commonBits kd key) = m) (hmc : cidr ≠ m)
    (hpart : keyBit kd m = !keyBit key m) :
    ∃ t', t.attach key cidr peer parent true = some t' ∧
      Rep t' s (.branch (t.next + 1) key m none (keyBit key m)
        (.node t.next key cidr (some peer) .empty .empty) (.node d kd len value left right)) ∧
      Frame (Tree.ids (.node d kd len value left right)) s t t' ∧ t.next + 1 < t'.next := by
  have hd : d < t.next := hsits.lt_next d (Tree.mem_ids_node.mpr (.inl rfl))
  have hold : (t.newNode key cidr (some peer)).data d = described kd len value s := by
    rw [data_newNode, if_neg hd.ne, hrep.2.1]
  have hnew : (t.newNode key cidr (some peer)).data t.next =
      described key cidr (some peer) .root := by
    rw [data_newNode, if_pos rfl]
  have hsread : (t.newNode key cidr (some peer)).read s = t.read s := newNode_read_slot hsits
  set t₁ := t.newNode key cidr (some peer) with ht₁
  have hnext : t₁.next = t.next + 1 := rfl
  set y := t.next + 1 with hy
  have hlt {z : NodeId} (hz : z < t.next) : z ≠ y := (hz.trans (Nat.lt_succ_self _)).ne
  have hxy : t.next ≠ y := (Nat.lt_succ_self _).ne
  have hsnew {z : NodeId} (hz : t.next ≤ z) (b : Bool) : Slot.bit z b ≠ s := by
    rintro rfl
    exact absurd hsits.slot.2 (Nat.not_lt.mpr hz)
  have hynew : t.next ≤ y := Nat.le_succ _
  set t₂ := t₁.zalloc.copyAndAssignCidr y key m with ht₂
  have hbranch : t₂.data y = described key m none .root := by
    rw [ht₂, ← hnext, data_branchNode, if_pos rfl]
  have hdata₂ {z : NodeId} (hz : z ≠ y) : t₂.data z = t₁.data z := by
    rw [ht₂, ← hnext, data_branchNode, if_neg (hnext ▸ hz)]
  set t₃ := t₂.connectNode (.bit y (keyBit kd m)) d with ht₃
  set t₄ := t₃.connectNode (.bit y (keyBit key m)) t.next with ht₄
  have hy₃ : t₃.data y = described key m none .root := by
    rw [ht₃, data_connectNode, if_neg (hlt hd).symm, hbranch]
  have hx₃ : t₃.data t.next = described key cidr (some peer) .root := by
    rw [ht₃, data_connectNode, if_neg hd.ne', hdata₂ hxy, hnew]
  have hattach : t.attach key cidr peer parent true = some (t₄.connectNode s y) := by
    have hconnect : t₄.connectBelow parent y = t₄.connectNode s y := by
      rw [← hslot]
      apply connectBelow_eq
      · rintro q rfl
        obtain ⟨hq, hqlt⟩ := parent_clear hsits.slot hslot
        have hqd : q ≠ d := fun h => hq (Tree.mem_ids_node.mpr (.inl h))
        rw [ht₄, data_connectNode, if_neg hqlt.ne, ht₃, data_connectNode, if_neg hqd,
          hdata₂ (hlt hqlt), ht₁, data_newNode, if_neg hqlt.ne]
      · rw [ht₄, data_connectNode, if_neg hxy.symm, hy₃]
        rfl
    simp only [attach, hslot, ← ht₁, hsread, hrep.1, toNodeData_node, hold, hnew, described_cidr,
      described_bits, hcommon, if_neg hmc, if_true, addBranch, hnext, ← ht₂, chooseAndConnectNode,
      hbranch, choose_described hw hm, hdata₂ (hlt hd), ← ht₃, hy₃, hx₃, ← ht₄, hconnect]
  have hread (q : Slot) : (t₄.connectNode s y).read q =
      if q = s then some y else if q = .bit y (keyBit key m) then some t.next
      else if q = .bit y (keyBit kd m) then some d else t₁.zalloc.read q := by
    rw [read_connectNode, ht₄, read_connectNode, ht₃, read_connectNode, ht₂, copyAndAssignCidr,
      read_setData]
  have hread_new (b : Bool) : t₁.zalloc.read (.bit t.next b) = none := by
    have hnone : t₁.read (.bit t.next b) = none := by
      rw [ht₁, read_newNode, read_zalloc]
      exact if_pos rfl
    rw [read_zalloc]
    simp only [hnone, ite_self]
  have hread_old {z : NodeId} (hz : z < t.next) (b : Bool) :
      t₁.zalloc.read (.bit z b) = t.read (.bit z b) := by
    rw [read_zalloc]
    simp only [hnext, if_neg (hlt hz)]
    exact newNode_read_old hz b
  have hdata (z : NodeId) (hz : z < t.next) : (t₄.connectNode s y).data z =
      if z = d then { t.data d with parentBitPacked := .bit y (keyBit kd m) } else t.data z := by
    rw [data_connectNode, if_neg (hlt hz), ht₄, data_connectNode, if_neg hz.ne, ht₃,
      data_connectNode, hdata₂ (hlt hz), hdata₂ (hlt hd), ht₁, data_newNode, data_newNode,
      if_neg hz.ne, if_neg hd.ne]
  refine ⟨_, hattach, rep_branch.mpr ⟨?_, ?_, ⟨?_, ?_, ?_, ?_⟩, ?_⟩, ⟨?_, ?_, ?_⟩, ?_⟩
  · rw [hread, if_pos rfl]
  · rw [data_connectNode, if_pos rfl, ht₄, data_connectNode, if_neg hxy.symm, hy₃]
    rfl
  · rw [hread, if_neg (hsnew hynew _), if_pos rfl]
  · rw [data_connectNode, if_neg hxy, ht₄, data_connectNode, if_pos rfl, hx₃]
    rfl
  · show _ = none
    rw [hread, if_neg (hsnew le_rfl _), if_neg (by simp [hxy]), if_neg (by simp [hxy]), hread_new]
  · show _ = none
    rw [hread, if_neg (hsnew le_rfl _), if_neg (by simp [hxy]), if_neg (by simp [hxy]), hread_new]
  · rw [← hpart]
    apply rep_below_new hrep hsits
    · rw [hread, if_neg (hsnew hynew _), if_neg (by simp [hpart]), if_pos rfl]
    · rw [hdata d hd, if_pos rfl]
    · intro z hz hzd
      rw [hdata z hz, if_neg hzd]
    · intro z hz b hzs
      rw [hread, if_neg hzs, if_neg (by simp [hlt hz]), if_neg (by simp [hlt hz]), hread_old hz]
  · simp [ht₄, ht₃, ht₂, ht₁, copyAndAssignCidr, Nat.add_assoc]
  · intro z hz hzlt
    rw [hdata z hzlt, if_neg fun h => hz (Tree.mem_ids_node.mpr (.inl h))]
  · intro q hq hclear
    cases q with
    | root =>
      rw [hread, if_neg hq, if_neg (by simp), if_neg (by simp), read_zalloc]
      simp only [ht₁, read_newNode, read_zalloc]
    | bit z b =>
      rw [hread, if_neg hq, if_neg (by simp [hlt hclear.2]), if_neg (by simp [hlt hclear.2]),
        hread_old hclear.2]
  · simp [ht₄, ht₃, ht₂, ht₁, copyAndAssignCidr, hy]

end Attach

/-- Where the tree in the slot is not on the path of the prefix, the new node is attached. -/
theorem attach_inserted (hw : w = 32 ∨ w = 128) (hrep : Rep t s tree)
    (hfits : Tree.Fits keyBit w c p tree) (hsits : Sits t s tree) (hc : cidr ≤ w)
    (hslot : t.slotBelow key parent = s)
    (hpath : ∀ d kd len value left right, tree = .node d kd len value left right →
      ¬ (len ≤ cidr ∧ Agree keyBit len kd key)) :
    ∃ t', t.attach key cidr peer parent true = some t' ∧ Inserted t s tree key cidr peer t' := by
  cases tree with
  | empty => exact ⟨_, attach_empty hrep hsits.slot hslot, newNode_inserted hsits.slot⟩
  | node d kd len value left right =>
    have hoff := hpath d kd len value left right rfl
    obtain ⟨hm, -, hpart⟩ :=
      Tree.common_of_not_on_path (le_commonBits_iff hw) hfits.1.2.1 hc hoff
    have hmw : min cidr (commonBits kd key) < w := hm.trans_le hfits.1.2.1
    by_cases hmc : min cidr (commonBits kd key) = cidr
    · obtain ⟨t', hattach, hrep', hframe, hnext⟩ :=
        attach_above peer hw hrep hsits (hmc ▸ hmw) hslot hmc
      have hinsert : Tree.insert keyBit commonBits key cidr peer t.next (t.next + 1)
          (.node d kd len value left right) = .branch t.next key cidr (some peer)
            (keyBit kd cidr) (.node d kd len value left right) .empty := by
        simp only [Tree.insert, if_neg hoff, hmc, if_true]
      refine ⟨t', hattach, hinsert ▸ hrep', hframe, ?_⟩
      intro id hid
      rw [hinsert, Tree.mem_ids_branch] at hid
      rcases hid with rfl | hid | hid
      · exact hnext
      · exact (hsits.lt_next id hid).trans hnext
      · cases hid
    · have hflip : keyBit kd (min cidr (commonBits kd key)) =
          !keyBit key (min cidr (commonBits kd key)) := by
        have := hpart hmc
        revert this
        cases keyBit kd (min cidr (commonBits kd key)) <;>
          cases keyBit key (min cidr (commonBits kd key)) <;> simp
      obtain ⟨t', hattach, hrep', hframe, hnext⟩ :=
        attach_branch peer hw hrep hsits hmw hslot rfl (Ne.symm hmc) hflip
      have hinsert : Tree.insert keyBit commonBits key cidr peer t.next (t.next + 1)
          (.node d kd len value left right) = .branch (t.next + 1) key
            (min cidr (commonBits kd key)) none (keyBit key (min cidr (commonBits kd key)))
            (.node t.next key cidr (some peer) .empty .empty)
            (.node d kd len value left right) := by
        simp only [Tree.insert, if_neg hoff, if_neg hmc]
      have hnext' : t.next < t'.next := (Nat.lt_succ_self _).trans hnext
      refine ⟨t', hattach, hinsert ▸ hrep', hframe, ?_⟩
      intro id hid
      rw [hinsert, Tree.mem_ids_branch, Tree.mem_ids_node] at hid
      rcases hid with rfl | (rfl | hid | hid) | hid
      · exact hnext
      · exact hnext'
      · cases hid
      · cases hid
      · exact (hsits.lt_next id hid).trans hnext'

/-- A node for the prefix is there already. -/
theorem setPeer_inserted {id : NodeId} {key' : BitVec w} {value : Option PeerId}
    {left right : KeyTree w} (hrep : Rep t s (.node id key' cidr value left right))
    (hsits : Sits t s (.node id key' cidr value left right))
    (hagree : Agree keyBit cidr key' key) :
    Inserted t s (.node id key' cidr value left right) key cidr peer
      (t.setPeer id (some peer)) := by
  obtain ⟨hread, hdesc, hleft, hright⟩ := hrep
  obtain ⟨hidl, hidr, -, -, -⟩ := Tree.nodup_ids_node.mp hsits.nodup
  have hinsert : Tree.insert keyBit commonBits key cidr peer t.next (t.next + 1)
      (.node id key' cidr value left right) = .node id key' cidr (some peer) left right := by
    simp [Tree.insert, hagree]
  have hdata {z : NodeId} (hz : z ≠ id) : (t.setPeer id (some peer)).data z = t.data z := by
    rw [setPeer, data_setData, if_neg hz]
  have hreads (q : Slot) : (t.setPeer id (some peer)).read q = t.read q := by
    rw [setPeer, read_setData]
  refine ⟨hinsert ▸ ⟨(hreads s).trans hread, ?_, ?_, ?_⟩, ⟨le_rfl, ?_, ?_⟩, ?_⟩
  · rw [setPeer, data_setData, if_pos rfl, toNodeData_node, hdesc]
    rfl
  · apply hleft.congr (hreads _)
    · exact fun z hz => hdata (ne_of_mem_of_not_mem hz hidl)
    · exact fun z _ b => hreads _
  · apply hright.congr (hreads _)
    · exact fun z hz => hdata (ne_of_mem_of_not_mem hz hidr)
    · exact fun z _ b => hreads _
  · intro z hz _
    exact hdata fun h => hz (Tree.mem_ids_node.mpr (.inl h))
  · exact fun q _ _ => hreads q
  · intro z hz
    rw [hinsert] at hz
    exact hsits.lt_next z hz

theorem Inserted.of_child {id : NodeId} {key' : BitVec w} {len : Nat} {value : Option PeerId}
    {child other : KeyTree w}
    (hrep : Rep t s (.branch id key' len value (keyBit key len) child other))
    (hsits : Sits t s (.branch id key' len value (keyBit key len) child other))
    (hpath : len ≤ cidr ∧ Agree keyBit len key' key) (hne : len ≠ cidr)
    (h : Inserted t (.bit id (keyBit key len)) child key cidr peer t') :
    Inserted t s (.branch id key' len value (keyBit key len) child other) key cidr peer t' := by
  have hinsert : Tree.insert keyBit commonBits key cidr peer t.next (t.next + 1)
      (.branch id key' len value (keyBit key len) child other) =
        .branch id key' len value (keyBit key len)
          (child.insert keyBit commonBits key cidr peer t.next (t.next + 1)) other :=
    Tree.insert_branch hpath hne
  refine ⟨?_, Frame.of_child h.frame, ?_⟩
  · rw [hinsert]
    exact hrep.of_child hsits h.frame h.rep
  · intro z hz
    rw [hinsert, Tree.mem_ids_branch] at hz
    rcases hz with rfl | hz | hz
    · exact (hsits.lt_next z (Tree.mem_ids_branch.mpr (.inl rfl))).trans_le h.frame.next
    · exact h.lt_next z hz
    · exact (hsits.lt_next z (Tree.mem_ids_branch.mpr (.inr (.inr hz)))).trans_le h.frame.next

/-- The loop of `node_placement` meets a node in a slot. -/
theorem nodePlacementLoop_node (hw : w = 32 ∨ w = 128) {id : NodeId} {key' : BitVec w} {len : Nat}
    {value : Option PeerId} {left right : KeyTree w}
    (hrep : Rep t s (.node id key' len value left right)) (hlen : len ≤ w) (hc : cidr ≤ w)
    (fuel : Nat) :
    t.nodePlacementLoop key cidr (fuel + 1) (t.read s) parent =
      if len ≤ cidr ∧ Agree keyBit len key' key then
        if len = cidr then (true, some id)
        else t.nodePlacementLoop key cidr fuel (t.read (.bit id (keyBit key len))) (some id)
      else (false, parent) := by
  rw [hrep.1, nodePlacementLoop]
  simp only [toNodeData_node, hrep.2.1, described_cidr, prefixMatches_described hw hlen,
    decide_eq_true_eq, node_bit]
  split
  · split
    · rfl
    · rw [choose_described hw (by omega)]
  · rfl

/-- The outcome of `node_placement`: the node of the prefix, or a parent to attach one to. -/
def Placed (t : Trie w) (s : Slot) (tree : KeyTree w) (key : BitVec w) (cidr : Nat) (peer : PeerId)
    (r : Bool × Option NodeId) : Prop :=
  (∃ id, r = (true, some id) ∧ (tree.placed keyBit key cidr t.next).1 = id ∧
      Inserted t s tree key cidr peer (t.setPeer id (some peer))) ∨
    ∃ q t', r = (false, q) ∧ (tree.placed keyBit key cidr t.next).1 = t.next ∧
      t.attach key cidr peer q true = some t' ∧ Inserted t s tree key cidr peer t'

theorem Placed.of_child {id : NodeId} {key' : BitVec w} {len : Nat} {value : Option PeerId}
    {child other : KeyTree w} {r : Bool × Option NodeId}
    (hrep : Rep t s (.branch id key' len value (keyBit key len) child other))
    (hsits : Sits t s (.branch id key' len value (keyBit key len) child other))
    (hpath : len ≤ cidr ∧ Agree keyBit len key' key) (hne : len ≠ cidr)
    (h : Placed t (.bit id (keyBit key len)) child key cidr peer r) :
    Placed t s (.branch id key' len value (keyBit key len) child other) key cidr peer r := by
  have hplaced : (Tree.branch id key' len value (keyBit key len) child other).placed keyBit key cidr
      t.next = child.placed keyBit key cidr t.next := Tree.placed_branch hpath hne
  rcases h with ⟨z, hr, hz, hins⟩ | ⟨q, t', hr, hz, hattach, hins⟩
  · exact .inl ⟨z, hr, hplaced ▸ hz, hins.of_child hrep hsits hpath hne⟩
  · exact .inr ⟨q, t', hr, hplaced ▸ hz, hattach, hins.of_child hrep hsits hpath hne⟩

theorem nodePlacementLoop_placed (hw : w = 32 ∨ w = 128) (hrep : Rep t s tree)
    (hfits : Tree.Fits keyBit w c p tree) (hsits : Sits t s tree) (hc : cidr ≤ w)
    (hslot : t.slotBelow key parent = s) {fuel : Nat} (hfuel : w + 2 ≤ fuel + c)
    (hcw : c ≤ w + 1) :
    Placed t s tree key cidr peer (t.nodePlacementLoop key cidr fuel (t.read s) parent) := by
  induction tree generalizing s c p fuel parent with
  | empty =>
    obtain ⟨t', hattach, hins⟩ := attach_inserted hw hrep hfits hsits hc hslot (by simp)
    have hloop : t.nodePlacementLoop key cidr fuel (t.read s) parent = (false, parent) := by
      rw [show t.read s = none from hrep]
      cases fuel <;> rfl
    exact .inr ⟨parent, t', hloop, rfl, hattach, hins⟩
  | node id key' len value left right ihl ihr =>
    have hnode := hfits
    obtain ⟨⟨hlen, hlenw, -⟩, -, hfitl, hfitr⟩ := hnode
    obtain ⟨fuel, rfl⟩ : ∃ n, fuel = n + 1 := ⟨fuel - 1, by omega⟩
    rw [nodePlacementLoop_node hw hrep hlenw hc]
    split
    · next hpath =>
      split
      · next hhit =>
        subst hhit
        refine .inl ⟨id, rfl, ?_, setPeer_inserted hrep hsits hpath.2⟩
        simp [Tree.placed, hpath.2]
      · next hne =>
        -- One level down, below the bit that the key has behind this prefix.
        have hbelow : t.slotBelow key (some id) = .bit id (keyBit key len) := by
          rw [slotBelow, toNodeData_node, hrep.2.1, choose_described hw (by omega)]
        rw [Tree.node_eq_branch (keyBit key len)] at hrep hsits ⊢
        apply Placed.of_child hrep hsits hpath hne
        have hchild := (rep_branch.mp hrep).2.2.1
        have hsub := hsits.below
        generalize keyBit key len = b at hchild hsub hbelow ⊢
        cases b with
        | false => exact ihl hchild hfitl hsub hbelow (by omega) (by omega)
        | true => exact ihr hchild hfitr hsub hbelow (by omega) (by omega)
    · next hpath =>
      obtain ⟨t', hattach, hins⟩ := attach_inserted hw hrep hfits hsits hc hslot (by
        rintro d kd len' value' left' right' ⟨⟩
        exact hpath)
      refine .inr ⟨parent, t', rfl, ?_, hattach, hins⟩
      simp [Tree.placed, hpath]

end Insert

/-- The result of `node_placement` for a prefix that may have a node. -/
theorem nodePlacementLoop_find (hw : w = 32 ∨ w = 128) {tree : KeyTree w} {key : BitVec w}
    {cidr c fuel : Nat} {p : Nat → Bool} {parent : Option NodeId} (hrep : Rep t s tree)
    (hfits : Tree.Fits keyBit w c p tree) (hc : cidr ≤ w) (hfuel : w + 2 ≤ fuel + c)
    (hcw : c ≤ w + 1) :
    match tree.find keyBit key cidr with
    | some (id, value) =>
        t.nodePlacementLoop key cidr fuel (t.read s) parent = (true, some id) ∧
          (t.data id).peer = value
    | none => (t.nodePlacementLoop key cidr fuel (t.read s) parent).1 = false := by
  induction tree generalizing s c p fuel parent with
  | empty =>
    rw [show t.read s = none from hrep]
    cases fuel <;> rfl
  | node id key' len value left right ihl ihr =>
    obtain ⟨⟨hlen, hlenw, -⟩, -, hfitl, hfitr⟩ := hfits
    obtain ⟨fuel, rfl⟩ : ∃ n, fuel = n + 1 := ⟨fuel - 1, by omega⟩
    rw [nodePlacementLoop_node hw hrep hlenw hc, Tree.find]
    by_cases hpath : len ≤ cidr ∧ Agree keyBit len key' key
    · simp only [if_pos hpath]
      by_cases hhit : len = cidr
      · simp only [if_pos hhit]
        exact ⟨trivial, by rw [hrep.2.1, described_peer]⟩
      · simp only [if_neg hhit]
        cases keyBit key len with
        | false => exact ihl hrep.2.2.1 hfitl (by omega) (by omega)
        | true => exact ihr hrep.2.2.2 hfitr (by omega) (by omega)
    · simp only [if_neg hpath]

/-! ## Removal -/

section Remove

variable {tree : KeyTree w} {c : Nat} {p : Nat → Bool}

theorem read_hang (t : Trie w) (s s' : Slot) (child : Option NodeId) :
    (t.hang s child).read s' = if s' = s then child else t.read s' := by
  cases child with
  | none => exact read_write t s s' none
  | some id => exact read_connectNode t s s' id

theorem data_hang (t : Trie w) (s : Slot) (child : Option NodeId) (id : NodeId) :
    (t.hang s child).data id =
      if child = some id then { t.data id with parentBitPacked := s } else t.data id := by
  cases child with
  | none => simp [hang]
  | some id' =>
    rw [hang, data_connectNode]
    by_cases hid : id = id'
    · subst hid
      simp
    · simp [hid, Ne.symm hid]

@[simp] theorem next_hang (t : Trie w) (s : Slot) (child : Option NodeId) :
    (t.hang s child).next = t.next := by
  cases child <;> simp [hang]

/-- A tree follows its root into another slot. -/
theorem Rep.hang (h : Rep t s tree) (hnodup : tree.ids.Nodup)
    (hs' : ∀ id ∈ tree.ids, ∀ b, Slot.bit id b ≠ s') : Rep (t.hang s' (t.read s)) s' tree := by
  apply h.move hnodup
  · rw [read_hang, if_pos rfl]
  · intro id hid
    rw [data_hang, if_pos hid]
  · intro id _ hne
    rw [data_hang, if_neg hne]
  · intro id hid b
    rw [read_hang, if_neg (hs' id hid b)]

theorem data_setPeer (t : Trie w) (x id : NodeId) (peer : Option PeerId) :
    (t.setPeer x peer).data id = if id = x then { t.data x with peer := peer } else t.data id :=
  data_setData t x id _

@[simp] theorem read_setPeer (t : Trie w) (x : NodeId) (peer : Option PeerId) (s : Slot) :
    (t.setPeer x peer).read s = t.read s :=
  read_setData t x _ s

theorem Rep.setPeer (h : Rep t s tree) (hx : x ∉ tree.ids) (peer : Option PeerId) :
    Rep (t.setPeer x peer) s tree := by
  apply h.congr (read_setPeer t x peer s)
  · intro id hid
    rw [data_setPeer, if_neg (ne_of_mem_of_not_mem hid hx)]
  · exact fun id _ b => read_setPeer t x peer _

/-- `remove_node` on a node whose back pointer is known. -/
theorem removeNode_eq (hs : (t.data x).parentBitPacked = s) :
    t.removeNode x =
      if (t.read (.bit x false)).isSome && (t.read (.bit x true)).isSome then t.setPeer x none
      else
        let t' := (t.setPeer x none).hang s (t.read (.bit x (t.read (.bit x false)).isNone))
        match s with
        | .root => t'
        | .bit q b =>
            if (t.read (.bit x false)).isNone && (t.read (.bit x true)).isNone &&
                (t'.data q).peer.isNone then
              t'.hang (t'.data q).parentBitPacked (t'.read (.bit q !b))
            else t' := by
  have hparent : ((t.setPeer x none).data x).parentBitPacked = s := by
    rw [data_setPeer, if_pos rfl, ← hs]
  simp only [removeNode, node_bit, read_setPeer, toNodeData_node, hparent]
  cases s <;> rfl

section Node

variable {key : BitVec w} {len : Nat} {value : Option PeerId} {left right child other : KeyTree w}

theorem Rep.read_isNone (h : Rep t s tree) : (t.read s).isNone = true ↔ tree = .empty := by
  cases tree with
  | empty => simp [show t.read s = none from h]
  | node => simp [h.1]

/-- A node with two children only loses its peer. -/
theorem removeNode_keep (hrep : Rep t s (.node x key len value left right))
    (hsits : Sits t s (.node x key len value left right)) (hleft : left ≠ .empty)
    (hright : right ≠ .empty) :
    Rep (t.removeNode x) s (.node x key len none left right) ∧
      Frame (Tree.ids (.node x key len value left right)) s t (t.removeNode x) := by
  obtain ⟨hread, hdesc, hl, hr⟩ := hrep
  obtain ⟨hxl, hxr, -, -, -⟩ := Tree.nodup_ids_node.mp hsits.nodup
  have hl' : (t.read (.bit x false)).isSome = true := by
    rw [← Option.not_isNone, Bool.not_eq_true', ← Bool.not_eq_true, hl.read_isNone]
    exact hleft
  have hr' : (t.read (.bit x true)).isSome = true := by
    rw [← Option.not_isNone, Bool.not_eq_true', ← Bool.not_eq_true, hr.read_isNone]
    exact hright
  rw [removeNode_eq (congrArg NodeData.parentBitPacked hdesc), hl', hr', Bool.and_self, if_pos rfl]
  refine ⟨⟨?_, ?_, hl.setPeer hxl none, hr.setPeer hxr none⟩, le_rfl, ?_, ?_⟩
  · rw [read_setPeer, hread]
  · rw [data_setPeer, if_pos rfl, hdesc]
    rfl
  · intro z hz _
    rw [data_setPeer, if_neg fun h => hz (Tree.mem_ids_node.mpr (.inl h))]
  · exact fun q _ _ => read_setPeer t x none q

/-- A node with one child or none gives its slot to the child. -/
theorem removeNode_hang (hrep : Rep t s (.branch x key len value b child .empty))
    (hsits : Sits t s (.branch x key len value b child .empty)) :
    Rep ((t.setPeer x none).hang s (t.read (.bit x b))) s child ∧
      Frame (Tree.ids (.branch x key len value b child .empty)) s t
        ((t.setPeer x none).hang s (t.read (.bit x b))) := by
  obtain ⟨hread, hdesc, hchild, -⟩ := rep_branch.mp hrep
  obtain ⟨hxc, -, hnodup, -, -⟩ := Tree.nodup_ids_branch.mp hsits.nodup
  have hread' : t.read (.bit x b) = (t.setPeer x none).read (.bit x b) := (read_setPeer ..).symm
  constructor
  · rw [hread']
    apply (hchild.setPeer hxc none).hang hnodup
    rintro id hid b' rfl
    exact hsits.slot.1 (Tree.mem_ids_branch.mpr (.inr (.inl hid)))
  · refine ⟨by simp [Trie.setPeer], ?_, ?_⟩
    · intro z hz _
      rw [Tree.mem_ids_branch, not_or, not_or] at hz
      have hroot : t.read (.bit x b) ≠ some z := by
        intro h
        cases child with
        | empty => simp [show t.read (.bit x b) = none from hchild] at h
        | node id =>
          rw [hchild.1] at h
          exact hz.2.1 (Tree.mem_ids_node.mpr (.inl (Option.some.inj h).symm))
      rw [data_hang, if_neg hroot, data_setPeer, if_neg hz.1]
    · intro q hq _
      rw [read_hang, if_neg hq, read_setPeer]

/-- The root of a tree is removed, and the node above stays. -/
theorem removeNode_root (hrep : Rep t s (.branch x key len value b child .empty))
    (hsits : Sits t s (.branch x key len value b child .empty))
    (hside : b = false → child ≠ .empty)
    (habove : child = .empty → ∀ q b', s = .bit q b' → (t.data q).peer.isSome = true) :
    Rep (t.removeNode x) s child ∧
      Frame (Tree.ids (.branch x key len value b child .empty)) s t (t.removeNode x) := by
  obtain ⟨hread, hdesc, hchild, hother⟩ := rep_branch.mp hrep
  have hempty : t.read (.bit x !b) = none := hother
  have hpick : t.read (.bit x (t.read (.bit x false)).isNone) = t.read (.bit x b) := by
    cases b with
    | true => rw [show t.read (.bit x false) = none from hempty, Option.isNone_none]
    | false =>
      rw [Bool.eq_false_iff.mpr (mt hchild.read_isNone.mp (hside rfl))]
  have hone : ((t.read (.bit x false)).isSome && (t.read (.bit x true)).isSome) = false := by
    cases b with
    | true => simp [show t.read (.bit x false) = none from hempty]
    | false => simp [show t.read (.bit x true) = none from hempty]
  have hhang := removeNode_hang hrep hsits
  have hslot : (t.data x).parentBitPacked = s := by
    rw [hdesc]
    rfl
  have hremove : t.removeNode x = (t.setPeer x none).hang s (t.read (.bit x b)) := by
    rw [removeNode_eq hslot, hone, hpick]
    simp only [Bool.false_eq_true, if_false]
    cases s with
    | root => rfl
    | bit q b' =>
      dsimp only
      rw [if_neg]
      intro hcond
      simp only [Bool.and_eq_true] at hcond
      have hnone : child = .empty := by
        rw [← hchild.read_isNone]
        cases b with
        | false => exact hcond.1.1
        | true => exact hcond.1.2
      have hq := hhang.2.data q hsits.slot.1 hsits.slot.2
      rw [hq] at hcond
      have := habove hnone q b' rfl
      simp_all
  rw [hremove]
  exact hhang

/-- A leaf goes, and the branch above it too: the sibling takes the place of the branch. -/
theorem removeNode_collapse {key' : BitVec w} {len' : Nat} {value' : Option PeerId}
    (hrep : Rep t s (.branch id key len none b (.node x key' len' value' .empty .empty) other))
    (hsits : Sits t s (.branch id key len none b (.node x key' len' value' .empty .empty) other)) :
    Rep (t.removeNode x) s other ∧
      Frame (Tree.ids (.branch id key len none b (.node x key' len' value' .empty .empty) other)) s
        t (t.removeNode x) := by
  obtain ⟨hread, hdesc, ⟨hxread, hxdesc, hxl, hxr⟩, hother⟩ := rep_branch.mp hrep
  obtain ⟨hidx, hido, -, hnodup, hdisj⟩ := Tree.nodup_ids_branch.mp hsits.nodup
  have hxother : x ∉ other.ids := hdisj x (Tree.mem_ids_node.mpr (.inl rfl))
  have hidne : id ≠ x := fun h => hidx (Tree.mem_ids_node.mpr (.inl h))
  have hxl' : t.read (.bit x false) = none := hxl
  have hxr' : t.read (.bit x true) = none := hxr
  set t₁ := (t.setPeer x none).hang (.bit id b) none with ht₁
  have hdata₁ {z : NodeId} (hz : z ≠ x) : t₁.data z = t.data z := by
    rw [ht₁, data_hang, if_neg (by simp), data_setPeer, if_neg hz]
  have hread₁ {q : Slot} (hq : q ≠ .bit id b) : t₁.read q = t.read q := by
    rw [ht₁, read_hang, if_neg hq, read_setPeer]
  have hsib : t₁.read (.bit id !b) = t.read (.bit id !b) := hread₁ (by simp)
  have hslot : (t.data x).parentBitPacked = .bit id b := by
    rw [hxdesc]
    rfl
  have hremove : t.removeNode x = t₁.hang s (t₁.read (.bit id !b)) := by
    rw [removeNode_eq hslot]
    simp only [hxl', hxr', Option.isNone_none, Option.isSome_none, Bool.false_and, Bool.true_and,
      Bool.false_eq_true, if_false]
    rw [← ht₁, hdata₁ hidne, hdesc, described_peer, Option.isNone_none, if_pos rfl]
    rfl
  have hrep₁ : Rep t₁ (.bit id !b) other := by
    apply hother.congr hsib
    · exact fun z hz => hdata₁ (ne_of_mem_of_not_mem hz hxother)
    · intro z hz b'
      apply hread₁
      rintro ⟨rfl, -⟩
      exact hido hz
  rw [hremove]
  constructor
  · apply hrep₁.hang hnodup
    rintro z hz b' rfl
    exact hsits.slot.1 (Tree.mem_ids_branch.mpr (.inr (.inr hz)))
  · refine ⟨by simp [ht₁, Trie.setPeer], ?_, ?_⟩
    · intro z hz _
      rw [Tree.mem_ids_branch, Tree.mem_ids_node, not_or, not_or, not_or] at hz
      have hroot : t₁.read (.bit id !b) ≠ some z := by
        intro h
        cases other with
        | empty => simp [show t₁.read (.bit id !b) = none from hrep₁] at h
        | node y =>
          rw [hrep₁.1] at h
          exact hz.2.2 (Tree.mem_ids_node.mpr (.inl (Option.some.inj h).symm))
      rw [data_hang, if_neg hroot, hdata₁ hz.2.1.1]
    · intro q hq hclear
      rw [read_hang, if_neg hq]
      apply hread₁
      rintro rfl
      exact hclear.1 (Tree.mem_ids_branch.mpr (.inl rfl))

/-- A node below another is removed. -/
theorem removeNode_child (hid : id ≠ x) (hrep : Rep t s (.branch id key len value b child other))
    (hsits : Sits t s (.branch id key len value b child other))
    (hvalue : value = none → other ≠ .empty) (hother : other.remove x = other)
    (hfits : Tree.Fits keyBit w (len + 1) p child) (hx : x ∈ child.ids)
    (ih : (∀ key len value, child = .node x key len value .empty .empty →
        ∀ q b', Slot.bit id b = .bit q b' → (t.data q).peer.isSome = true) →
      Rep (t.removeNode x) (.bit id b) (child.remove x) ∧
        Frame child.ids (.bit id b) t (t.removeNode x)) :
    Rep (t.removeNode x) s (Tree.remove x (.branch id key len value b child other)) ∧
      Frame (Tree.ids (.branch id key len value b child other)) s t (t.removeNode x) := by
  have hdesc := (rep_branch.mp hrep).2.1
  cases child with
  | empty => cases hx
  | node id' key' len' value' left' right' =>
    by_cases hleaf : value = none ∧ id' = x ∧ left' = .empty ∧ right' = .empty
    · obtain ⟨rfl, rfl, rfl, rfl⟩ := hleaf
      have hremove : Tree.remove id' (.branch id key len none b
          (.node id' key' len' value' .empty .empty) other) = other := by
        rw [Tree.branch, Tree.remove, if_neg hid]
        have hgone : Tree.remove id' (.node id' key' len' value' .empty .empty : KeyTree w) =
            .empty := by
          simp [Tree.remove, Tree.join]
        cases b with
        | false => simp only [Bool.false_eq_true, if_false, hgone, hother, Tree.join]
        | true =>
          simp only [if_true, hgone, hother]
          exact Tree.join_empty false other
      rw [hremove]
      exact removeNode_collapse hrep hsits
    · obtain ⟨hchild, hframe⟩ := ih (by
        rintro key'' len'' value'' ⟨⟩ q b' ⟨⟩
        rw [hdesc, described_peer, ← Option.ne_none_iff_isSome]
        exact fun h => hleaf ⟨h, rfl, rfl, rfl⟩)
      rw [Tree.remove_branch hid hother]
      · exact ⟨hrep.of_child hsits hframe hchild, hframe.of_child⟩
      · intro hnone
        refine ⟨fun hempty => hleaf ⟨hnone, ?_⟩, hvalue hnone⟩
        exact hfits.remove_eq_empty hsits.below.nodup hempty

end Node

/-- `remove_node` is the removal from the tree, if what it does to the node above the tree is
nothing. -/
theorem removeNode_spec (hrep : Rep t s tree) (hfits : Tree.Fits keyBit w c p tree)
    (hsits : Sits t s tree) (hx : x ∈ tree.ids)
    (habove : ∀ key len value, tree = .node x key len value .empty .empty →
      ∀ q b, s = .bit q b → (t.data q).peer.isSome = true) :
    Rep (t.removeNode x) s (tree.remove x) ∧ Frame tree.ids s t (t.removeNode x) := by
  induction tree generalizing s c p with
  | empty => cases hx
  | node id key len value left right ihl ihr =>
    obtain ⟨-, hvalue, hfitl, hfitr⟩ := hfits
    obtain ⟨hidl, hidr, -, -, hdisj⟩ := Tree.nodup_ids_node.mp hsits.nodup
    by_cases hid : id = x
    · subst hid
      have hremove : Tree.remove id (.node id key len value left right) =
          Tree.join id key len none left right := by
        rw [Tree.remove, if_pos rfl, hfitl.remove_of_notMem hidl, hfitr.remove_of_notMem hidr]
      rw [hremove]
      by_cases hleft : left = .empty
      · subst hleft
        rw [show Tree.join id key len none .empty right = right from rfl]
        apply removeNode_root (b := true) hrep hsits (by simp)
        rintro rfl q b' hq
        exact habove key len value rfl q b' hq
      · by_cases hright : right = .empty
        · subst hright
          have hjoin : Tree.join id key len none left .empty = left := by
            cases left <;> rfl
          rw [hjoin]
          exact removeNode_root (b := false) hrep hsits (fun _ => hleft)
            (fun h => absurd h hleft)
        · rw [Tree.join_eq_node fun _ => ⟨hleft, hright⟩]
          exact removeNode_keep hrep hsits hleft hright
    · rcases (Tree.mem_ids_node.mp hx).resolve_left (Ne.symm hid) with hmem | hmem
      · apply removeNode_child (b := false) hid hrep hsits (fun h => (hvalue h).2)
          (hfitr.remove_of_notMem (hdisj x hmem)) hfitl hmem
        exact ihl hrep.2.2.1 hfitl (Sits.below (b := false) hsits) hmem
      · apply removeNode_child (b := true) hid hrep hsits (fun h => (hvalue h).1)
          (hfitl.remove_of_notMem fun h => hdisj x h hmem) hfitr hmem
        exact ihr hrep.2.2.2 hfitr (Sits.below (b := true) hsits) hmem

end Remove

end Trie

end AllowedIps

end WgTcp
