import WgTcp.Foundation.PrefixTree

/-!
# The AllowedIPs trie

The nodes of one address family, linked by pointers: each node points to its two
children, and `parent_bit_packed` points back to the slot that points to it. The
address of a slot and the bit packed into it are one value here, so that the
root and the two children of every node are the slots.

A key is an address as a number, as `swap_endian` leaves it on a little-endian
host; `choose` and `common_bits` read its bytes and words from memory.
-/

namespace WgTcp

namespace AllowedIps

abbrev PeerId := Nat
abbrev NodeId := Nat

inductive Family where
  | inet
  | inet6
deriving Repr, DecidableEq

def Family.bits : Family → Nat
  | .inet => 32
  | .inet6 => 128

/-! ## Keys -/

/-- The position of the last set bit, counted from one. -/
def fls (n : Nat) : Nat := if n = 0 then 0 else n.log2 + 1

def fls128 (a b : Nat) : Nat := if a ≠ 0 then fls a + 64 else fls b

variable {w : Nat}

/-- The two words of an IPv6 key in memory. -/
def word0 (key : BitVec w) : Nat := key.toNat / 2 ^ 64

def word1 (key : BitVec w) : Nat := key.toNat % 2 ^ 64

/-- A byte of a key in memory. -/
def keyByte (key : BitVec w) (a : Nat) : Nat :=
  let word := if w = 128 then (if a < 8 then word0 key else word1 key) else key.toNat
  word >>> (8 * (a % 8)) % 256

def commonBits (node key : BitVec w) : Nat :=
  if w = 32 then 32 - fls (node.toNat ^^^ key.toNat)
  else if w = 128 then 128 - fls128 (word0 node ^^^ word0 key) (word1 node ^^^ word1 key)
  else 0

def bitAtA (w cidr : Nat) : Nat := cidr / 8 ^^^ ((w / 8 - 1) % 8)

def bitAtB (cidr : Nat) : Nat := 7 - cidr % 8

/-! ## Nodes -/

/-- Where a pointer to a node is stored. -/
inductive Slot where
  | root
  | bit (node : NodeId) (b : Bool)
deriving Repr, DecidableEq

/-- The fields of a node but its children. -/
structure NodeData (w : Nat) where
  peer : Option PeerId
  cidr : Nat
  bitAtA : Nat
  bitAtB : Nat
  bits : BitVec w
  parentBitPacked : Slot

structure Node (w : Nat) extends NodeData w where
  bit : Bool → Option NodeId

structure Trie (w : Nat) where
  root : Option NodeId
  node : NodeId → Node w
  /-- The next address of the allocator. -/
  next : NodeId

namespace Trie

def zeroNode : Node w := ⟨⟨none, 0, 0, 0, 0, .root⟩, fun _ => none⟩

def init : Trie w := ⟨none, fun _ => zeroNode, 0⟩

variable (t : Trie w)

def read : Slot → Option NodeId
  | .root => t.root
  | .bit node b => (t.node node).bit b

def write (slot : Slot) (child : Option NodeId) : Trie w :=
  match slot with
  | .root => { t with root := child }
  | .bit node b =>
      { t with
        node := Function.update t.node node
          { t.node node with bit := Function.update (t.node node).bit b child } }

def setData (node : NodeId) (data : NodeData w) : Trie w :=
  { t with node := Function.update t.node node { t.node node with toNodeData := data } }

/-- `kmem_cache_zalloc`. -/
def zalloc : Trie w :=
  { t with node := Function.update t.node t.next zeroNode, next := t.next + 1 }

def setPeer (node : NodeId) (peer : Option PeerId) : Trie w :=
  t.setData node { (t.node node).toNodeData with peer := peer }

def setParent (node : NodeId) (slot : Slot) : Trie w :=
  t.setData node { (t.node node).toNodeData with parentBitPacked := slot }

def copyAndAssignCidr (node : NodeId) (src : BitVec w) (cidr : Nat) : Trie w :=
  t.setData node
    { (t.node node).toNodeData with
      cidr := cidr
      bitAtA := AllowedIps.bitAtA w cidr
      bitAtB := AllowedIps.bitAtB cidr
      bits := src }

end Trie

def choose (node : NodeData w) (key : BitVec w) : Bool :=
  (keyByte key node.bitAtA).testBit node.bitAtB

def prefixMatches (node : NodeData w) (key : BitVec w) : Bool :=
  decide (node.cidr ≤ commonBits node.bits key)

namespace Trie

variable (t : Trie w)

/-- The loop of `find_node`. -/
def findNodeLoop (key : BitVec w) : Nat → Option NodeId → Option NodeId → Option NodeId
  | 0, _, found => found
  | _ + 1, none, found => found
  | fuel + 1, some node, found =>
      let n := t.node node
      if prefixMatches n.toNodeData key then
        let found := if n.peer.isSome then some node else found
        if n.cidr = w then found
        else findNodeLoop key fuel (n.bit (choose n.toNodeData key)) found
      else found

/-- The prefixes on a path get longer, so that the loop ends before the fuel does. -/
def findNode (key : BitVec w) : Option NodeId := t.findNodeLoop key (w + 2) t.root none

/-- `lookup`; a reference to the peer can be taken as long as it is in the trie. -/
def lookup (ip : BitVec w) : Option PeerId := (t.findNode ip).bind fun node => (t.node node).peer

/-- The loop of `node_placement`, with `exact` and `parent` as its result. -/
def nodePlacementLoop (key : BitVec w) (cidr : Nat) :
    Nat → Option NodeId → Option NodeId → Bool × Option NodeId
  | 0, _, parent => (false, parent)
  | _ + 1, none, parent => (false, parent)
  | fuel + 1, some node, parent =>
      let n := t.node node
      if n.cidr ≤ cidr ∧ prefixMatches n.toNodeData key then
        if n.cidr = cidr then (true, some node)
        else nodePlacementLoop key cidr fuel (n.bit (choose n.toNodeData key)) (some node)
      else (false, parent)

def nodePlacement (key : BitVec w) (cidr : Nat) : Bool × Option NodeId :=
  t.nodePlacementLoop key cidr (w + 2) t.root none

def connectNode (parent : Slot) (node : NodeId) : Trie w :=
  (t.setParent node parent).write parent (some node)

def chooseAndConnectNode (parent node : NodeId) : Trie w :=
  t.connectNode (.bit parent (choose (t.node parent).toNodeData (t.node node).bits)) node

/-- Connect to a parent, or to the root if there is none. -/
def connectBelow (parent : Option NodeId) (node : NodeId) : Trie w :=
  match parent with
  | none => t.connectNode .root node
  | some parent => t.chooseAndConnectNode parent node

/-- A new node for a prefix, not yet connected. -/
def newNode (key : BitVec w) (cidr : Nat) (peer : Option PeerId) : Trie w :=
  let node := t.next
  ((t.zalloc).setPeer node peer).copyAndAssignCidr node key cidr

/-- The slot in which `add` looks for what is below the new node. -/
def slotBelow (key : BitVec w) : Option NodeId → Slot
  | none => .root
  | some node => .bit node (choose (t.node node).toNodeData key)

/-- The branch between a new node and an older one. -/
def addBranch (parent : Option NodeId) (newnode down : NodeId) (cidr : Nat) : Trie w :=
  let node := t.next
  let t := t.zalloc.copyAndAssignCidr node (t.node newnode).bits cidr
  let t := t.chooseAndConnectNode node down
  let t := t.chooseAndConnectNode node newnode
  t.connectBelow parent node

/-- The end of `add`: connect a new node below the parent that `node_placement` found. It fails if a
branch is needed and `mem` says that there is no memory for one. -/
def attach (key : BitVec w) (cidr : Nat) (peer : PeerId) (parent : Option NodeId) (mem : Bool) :
    Option (Trie w) :=
  let newnode := t.next
  let slot := t.slotBelow key parent
  let t := t.newNode key cidr (some peer)
  match t.read slot with
  | none => some (t.connectNode slot newnode)
  | some down =>
      let common := min cidr (commonBits (t.node down).bits key)
      if (t.node newnode).cidr = common then
        some ((t.chooseAndConnectNode newnode down).connectBelow parent newnode)
      else if mem then some (t.addBranch parent newnode down common)
      else none

/-- Put a node or nothing into a slot. -/
def hang (slot : Slot) : Option NodeId → Trie w
  | none => t.write slot none
  | some child => t.connectNode slot child

def removeNode (node : NodeId) : Trie w :=
  let t := t.setPeer node none
  let n := t.node node
  if (n.bit false).isSome && (n.bit true).isSome then t
  else
    let t := t.hang n.parentBitPacked (n.bit (n.bit false).isNone)
    match n.parentBitPacked with
    | .root => t
    | .bit parent b =>
        let p := t.node parent
        if (n.bit false).isNone && (n.bit true).isNone && p.peer.isNone then
          t.hang p.parentBitPacked (p.bit !b)
        else t

end Trie

/-! ## Peer lists -/

/-- An element of `peer->allowedips_list`: the nodes of both families are on one list. -/
abbrev Item := Family × NodeId

abbrev PeerLists := PeerId → List Item

namespace PeerLists

def addTail (lists : PeerLists) (peer : PeerId) (item : Item) : PeerLists :=
  Function.update lists peer (lists peer ++ [item])

/-- `list_del`, from whichever list the item is on. -/
def del (lists : PeerLists) (item : Item) : PeerLists :=
  fun peer => (lists peer).filter (· ≠ item)

def moveTail (lists : PeerLists) (peer : PeerId) (item : Item) : PeerLists :=
  (lists.del item).addTail peer item

end PeerLists

inductive Ret where
  | ok
  | einval
  | enomem
deriving Repr, DecidableEq

/-- `add`; `mem` is the number of allocations that succeed. -/
def add (f : Family) (mem : Nat) (t : Trie w) (lists : PeerLists) (key : BitVec w) (cidr : Nat)
    (peer : PeerId) : Ret × Trie w × PeerLists :=
  if w < cidr then (.einval, t, lists)
  else
    match t.root with
    | none =>
        if mem = 0 then (.enomem, t, lists)
        else
          let node := t.next
          (.ok, (t.newNode key cidr (some peer)).connectNode .root node,
            lists.addTail peer (f, node))
    | some _ =>
        match t.nodePlacement key cidr with
        | (true, some node) =>
            (.ok, t.setPeer node (some peer), lists.moveTail peer (f, node))
        | (_, parent) =>
            if mem = 0 then (.enomem, t, lists)
            else
              let newnode := t.next
              let lists := lists.addTail peer (f, newnode)
              match t.attach key cidr peer parent (decide (1 < mem)) with
              | some t => (.ok, t, lists)
              | none => (.enomem, t, lists.del (f, newnode))

/-- The function `remove`. -/
def remove (f : Family) (t : Trie w) (lists : PeerLists) (key : BitVec w) (cidr : Nat)
    (peer : PeerId) : Ret × Trie w × PeerLists :=
  if w < cidr then (.einval, t, lists)
  else
    match t.root with
    | none => (.ok, t, lists)
    | some _ =>
        match t.nodePlacement key cidr with
        | (true, some node) =>
            if some peer = (t.node node).peer then (.ok, t.removeNode node, lists.del (f, node))
            else (.ok, t, lists)
        | _ => (.ok, t, lists)

/-- The loop of `root_remove_peer_lists`. -/
def rootRemovePeerListsLoop (f : Family) (t : Trie w) : Nat → List NodeId → PeerLists → PeerLists
  | 0, _, lists => lists
  | _ + 1, [], lists => lists
  | fuel + 1, node :: stack, lists =>
      let n := t.node node
      let stack := (n.bit true).toList ++ ((n.bit false).toList ++ stack)
      rootRemovePeerListsLoop f t fuel stack (if n.peer.isSome then lists.del (f, node) else lists)

/-- Every node is taken from the stack once, so that the loop ends before the fuel does. -/
def rootRemovePeerLists (f : Family) (t : Trie w) (root : NodeId) (lists : PeerLists) : PeerLists :=
  rootRemovePeerListsLoop f t (t.next + 1) [root] lists

/-! ## Keys as strings of bits -/

section Keys

theorem fls_le_iff (n m : Nat) : fls n ≤ m ↔ n < 2 ^ m := by
  unfold fls
  split
  · next h => simp [h]
  · next h => rw [Nat.add_one_le_iff, Nat.log2_lt h]

theorem fls128_le_iff (a b m : Nat) (hb : b < 2 ^ 64) :
    fls128 a b ≤ m ↔ a * 2 ^ 64 + b < 2 ^ m := by
  unfold fls128
  by_cases ha : a = 0
  · simp [ha, fls_le_iff]
  · rw [if_pos ha]
    by_cases hm : 64 ≤ m
    · obtain ⟨m, rfl⟩ := Nat.exists_eq_add_of_le' hm
      rw [Nat.add_le_add_iff_right, fls_le_iff, pow_add]
      constructor
      · intro h
        nlinarith
      · intro h
        by_contra hle
        nlinarith
    · have hpow : 2 ^ m ≤ 2 ^ 64 := Nat.pow_le_pow_right (by omega) (by omega)
      have hbig : 2 ^ 64 ≤ a * 2 ^ 64 := Nat.le_mul_of_pos_left _ (Nat.pos_of_ne_zero ha)
      omega

/-- The leading bits of a key, from the most significant one on. -/
abbrev keyBit (key : BitVec w) (i : Nat) : Bool := key.getMsbD i

theorem agree_iff_xor_lt {n : Nat} (hn : n ≤ w) (a b : BitVec w) :
    PrefixTree.Agree keyBit n a b ↔ a.toNat ^^^ b.toNat < 2 ^ (w - n) := by
  have hbit (i : Nat) : (a.toNat ^^^ b.toNat).testBit i = (a.getLsbD i ^^ b.getLsbD i) := by
    rw [Nat.testBit_xor, BitVec.testBit_toNat, BitVec.testBit_toNat]
  constructor
  · intro hagree
    apply Nat.lt_pow_two_of_testBit
    intro i hi
    rw [hbit]
    by_cases hiw : i < w
    · have := hagree (w - 1 - i) (by omega)
      simp only [keyBit, BitVec.getMsbD, show w - 1 - i < w by omega, decide_true, Bool.true_and,
        show w - 1 - (w - 1 - i) = i by omega] at this
      simp [this]
    · simp [BitVec.getLsbD_of_ge _ _ (Nat.le_of_not_lt hiw)]
  · intro hlt i hi
    have := hbit (w - 1 - i)
    rw [Nat.testBit_lt_two_pow (hlt.trans_le (Nat.pow_le_pow_right (by omega) (by omega)))] at this
    simp only [keyBit, BitVec.getMsbD]
    have heq : a.getLsbD (w - 1 - i) = b.getLsbD (w - 1 - i) := by
      revert this
      cases a.getLsbD (w - 1 - i) <;> cases b.getLsbD (w - 1 - i) <;> simp
    rw [heq]

theorem words_xor (a b : BitVec w) :
    (word0 a ^^^ word0 b) * 2 ^ 64 + (word1 a ^^^ word1 b) = a.toNat ^^^ b.toNat := by
  rw [word0, word0, word1, word1, ← Nat.xor_div_two_pow, ← Nat.xor_mod_two_pow, Nat.mul_comm]
  exact Nat.div_add_mod _ _

/-- `common_bits` is the length of the common part. -/
theorem le_commonBits_iff (hw : w = 32 ∨ w = 128) (a b : BitVec w) (n : Nat) (hn : n ≤ w) :
    n ≤ commonBits a b ↔ PrefixTree.Agree keyBit n a b := by
  rw [agree_iff_xor_lt hn]
  unfold commonBits
  rcases hw with rfl | rfl
  · rw [if_pos rfl, ← fls_le_iff]
    have := (fls_le_iff (a.toNat ^^^ b.toNat) 32).mpr (Nat.xor_lt_two_pow a.isLt b.isLt)
    omega
  · rw [if_neg (by decide), if_pos rfl, ← words_xor, ← fls128_le_iff]
    · have := (fls128_le_iff (word0 a ^^^ word0 b) (word1 a ^^^ word1 b) 128
        (Nat.xor_lt_two_pow (Nat.mod_lt _ (by decide)) (Nat.mod_lt _ (by decide)))).mpr (by
          rw [words_xor]
          exact Nat.xor_lt_two_pow a.isLt b.isLt)
      omega
    · exact Nat.xor_lt_two_pow (Nat.mod_lt _ (by decide)) (Nat.mod_lt _ (by decide))

theorem testBit_byte (word a : Nat) {b : Nat} (hb : b < 8) :
    (word >>> a % 256).testBit b = word.testBit (a + b) := by
  rw [show (256 : Nat) = 2 ^ 8 from rfl, Nat.testBit_mod_two_pow, Nat.testBit_shiftRight]
  simp [hb]

/-- `choose` reads the bit behind the prefix of a node. -/
theorem testBit_keyByte (hw : w = 32 ∨ w = 128) (key : BitVec w) {cidr : Nat} (hc : cidr < w) :
    (keyByte key (bitAtA w cidr)).testBit (bitAtB cidr) = keyBit key cidr := by
  have hb : bitAtB cidr < 8 := by
    unfold bitAtB
    omega
  simp only [keyByte, testBit_byte _ _ hb, keyBit, BitVec.getMsbD, hc, decide_true, Bool.true_and]
  rcases hw with rfl | rfl
  · have hindex : ∀ cidr < 32, 8 * (bitAtA 32 cidr % 8) + bitAtB cidr = 32 - 1 - cidr := by decide
    rw [if_neg (by decide), hindex cidr hc, BitVec.testBit_toNat]
  · rw [if_pos rfl]
    have hindex : ∀ cidr < 128, 8 * (bitAtA 128 cidr % 8) + bitAtB cidr =
        if bitAtA 128 cidr < 8 then 128 - 1 - cidr - 64 else 128 - 1 - cidr := by decide
    have hside : ∀ cidr < 128, bitAtA 128 cidr < 8 ↔ cidr < 64 := by decide
    rw [hindex cidr hc]
    split
    · next hlow =>
      have := (hside cidr hc).mp hlow
      rw [word0, Nat.testBit_div_two_pow, ← BitVec.testBit_toNat]
      congr 1
      omega
    · next hhigh =>
      have := mt (hside cidr hc).mpr hhigh
      rw [word1, Nat.testBit_mod_two_pow, ← BitVec.testBit_toNat]
      simp [show 127 - cidr < 64 by omega]

end Keys

end AllowedIps

end WgTcp
