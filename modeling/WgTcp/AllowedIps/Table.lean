import WgTcp.AllowedIps.Shape

/-!
# The AllowedIPs table

The tries of the two address families and the lists on which each peer keeps its
nodes, as one table with the operations that the rest of the device calls. The
table refines a map from masked prefixes to peers: `lookup` is the longest
prefix match of the map, and the list of a peer, read node by node, is the set of
its prefixes.
-/

namespace WgTcp

namespace AllowedIps

open PrefixTree

structure Table where
  trie : (f : Family) → Trie f.bits
  lists : PeerLists
  seq : Nat

namespace Table

/-- `wg_allowedips_init`. -/
def init : Table := ⟨fun _ => .init, fun _ => [], 1⟩

variable (T : Table)

/-- The common part of `wg_allowedips_insert_v4` and `wg_allowedips_insert_v6`. -/
def insertFamily (f : Family) (ip : BitVec f.bits) (cidr : Nat) (peer : PeerId) : Ret × Table :=
  let r := add f 2 (T.trie f) T.lists ip cidr peer
  (r.1, ⟨Function.update T.trie f r.2.1, r.2.2, T.seq + 1⟩)

def wgAllowedipsInsertV4 : BitVec 32 → Nat → PeerId → Ret × Table := T.insertFamily .inet

def wgAllowedipsInsertV6 : BitVec 128 → Nat → PeerId → Ret × Table := T.insertFamily .inet6

/-- The common part of `wg_allowedips_remove_v4` and `wg_allowedips_remove_v6`. -/
def removeFamily (f : Family) (ip : BitVec f.bits) (cidr : Nat) (peer : PeerId) : Ret × Table :=
  let r := remove f (T.trie f) T.lists ip cidr peer
  (r.1, ⟨Function.update T.trie f r.2.1, r.2.2, T.seq + 1⟩)

def wgAllowedipsRemoveV4 : BitVec 32 → Nat → PeerId → Ret × Table := T.removeFamily .inet

def wgAllowedipsRemoveV6 : BitVec 128 → Nat → PeerId → Ret × Table := T.removeFamily .inet6

/-- `remove_node` on an element of a peer's list. -/
def removeItem (item : Item) : Table :=
  { T with
    trie := Function.update T.trie item.1 ((T.trie item.1).removeNode item.2)
    lists := T.lists.del item }

/-- The loop takes each element before it removes it, and removes no other element. -/
def wgAllowedipsRemoveByPeer (peer : PeerId) : Table :=
  if T.lists peer = [] then T
  else (T.lists peer).foldl removeItem { T with seq := T.seq + 1 }

/-- The lists after `root_remove_peer_lists` on the root of a trie, if it has one. -/
def freeRoot (f : Family) (lists : PeerLists) : PeerLists :=
  match (T.trie f).root with
  | none => lists
  | some root => rootRemovePeerLists f (T.trie f) root lists

def wgAllowedipsFree : Table where
  trie f := { T.trie f with root := none }
  lists := T.freeRoot .inet6 (T.freeRoot .inet T.lists)
  seq := T.seq + 1

/-- `wg_allowedips_lookup_dst` and `wg_allowedips_lookup_src` on the address that they choose. -/
def lookup (f : Family) (ip : BitVec f.bits) : Option PeerId := (T.trie f).lookup ip

end Table

/-! ## Reading a node -/

section Read

variable {w : Nat}

/-- The bytes of an address in network order. -/
def networkBytes (key : BitVec w) : List (BitVec 8) :=
  (List.range (w / 8)).map fun i => (key >>> (w - 8 - 8 * i)).setWidth 8

/-- `wg_allowedips_read_node`. -/
def wgAllowedipsReadNode (node : NodeData w) : List (BitVec 8) × Nat :=
  let cidrBytes := (node.cidr + 7) / 8
  let ip := networkBytes node.bits
  let ip := ip.take cidrBytes ++ List.replicate (w / 8 - cidrBytes) 0
  let ip :=
    if node.cidr ≠ 0 then
      ip.modify (cidrBytes - 1) (· &&& (BitVec.allOnes 8 <<< ((8 - node.cidr % 8) % 8)))
    else ip
  (ip, node.cidr)

/-- A key without the bits behind the prefix. -/
def maskKey (key : BitVec w) (c : Nat) : BitVec w := (key >>> (w - c)) <<< (w - c)

theorem getLsbD_maskKey (key : BitVec w) (c j : Nat) :
    (maskKey key c).getLsbD j = (decide (w - c ≤ j) && key.getLsbD j) := by
  by_cases hj : w - c ≤ j
  · by_cases hw : j < w
    · simp [maskKey, hj, hw, show w - c + (j - (w - c)) = j by omega]
    · simp [maskKey, hw, BitVec.getLsbD_of_ge key j (by omega)]
  · simp [maskKey, hj]

theorem keyBit_maskKey (key : BitVec w) {c i : Nat} (hc : c ≤ w) :
    keyBit (maskKey key c) i = (decide (i < c) && keyBit key i) := by
  simp only [keyBit, BitVec.getMsbD, getLsbD_maskKey]
  by_cases hi : i < w
  · by_cases hic : i < c
    · simp [hi, hic, show w - c ≤ w - 1 - i by omega]
    · simp [hi, hic, show ¬ w - c ≤ w - 1 - i by omega]
  · simp [hi]

/-- Keys with a common prefix have a common masked form. -/
theorem agree_iff_maskKey_eq {a b : BitVec w} {c : Nat} (hc : c ≤ w) :
    Agree keyBit c a b ↔ maskKey a c = maskKey b c := by
  constructor
  · intro h
    apply BitVec.eq_of_getMsbD_eq
    intro i _
    have ha := keyBit_maskKey a (i := i) hc
    have hb := keyBit_maskKey b (i := i) hc
    simp only [keyBit] at ha hb
    rw [ha, hb]
    by_cases hi : i < c
    · rw [show a.getMsbD i = b.getMsbD i from h i hi]
    · simp [hi]
  · intro h i hi
    have ha := keyBit_maskKey a (i := i) hc
    have hb := keyBit_maskKey b (i := i) hc
    rw [h, hb] at ha
    simpa [hi] using ha.symm

theorem networkBytes_injective (hw : w % 8 = 0) {a b : BitVec w}
    (h : networkBytes a = networkBytes b) : a = b := by
  apply BitVec.eq_of_getLsbD_eq
  intro j hj
  have hbyte : (a >>> (w - 8 - 8 * (w / 8 - 1 - j / 8))).setWidth 8 =
      (b >>> (w - 8 - 8 * (w / 8 - 1 - j / 8))).setWidth 8 := by
    have := congrArg (fun l => l[w / 8 - 1 - j / 8]?) h
    simpa [networkBytes, show w / 8 - 1 - j / 8 < w / 8 by omega] using this
  have hbit := congrArg (fun v => v.getLsbD (j % 8)) hbyte
  simpa [show j % 8 < 8 by omega,
    show w - 8 - 8 * (w / 8 - 1 - j / 8) + j % 8 = j by omega] using hbit

/-- The bits of a byte of an address. -/
theorem getLsbD_networkByte (key : BitVec w) {i j : Nat} (hj : j < 8) :
    ((key >>> (w - 8 - 8 * i)).setWidth 8).getLsbD j = key.getLsbD (w - 8 - 8 * i + j) := by
  simp [hj]

/-- The last byte of a prefix, without the bits behind it. -/
theorem getLsbD_and_shiftLeft (byte : BitVec 8) (k : Nat) {j : Nat} (hj : j < 8) :
    (byte &&& (BitVec.allOnes 8 <<< k)).getLsbD j = (decide (k ≤ j) && byte.getLsbD j) := by
  rw [BitVec.getLsbD_and, BitVec.getLsbD_shiftLeft, BitVec.getLsbD_allOnes]
  by_cases hk : k ≤ j
  · simp [hj, hk, Nat.not_lt.mpr hk, show j - k < 8 by omega]
  · simp [hj, hk, Nat.lt_of_not_le hk]

/-- An address of which only the first bytes are kept. -/
theorem getElem_padded (key : BitVec w) {m i : Nat} (hm : m ≤ w / 8)
    (hi : i < ((networkBytes key).take m ++ List.replicate (w / 8 - m) 0).length) :
    ((networkBytes key).take m ++ List.replicate (w / 8 - m) 0)[i] =
      if i < m then (key >>> (w - 8 - 8 * i)).setWidth 8 else 0 := by
  have hlen : ((networkBytes key).take m).length = m := by
    simp [networkBytes, hm]
  by_cases him : i < m
  · rw [List.getElem_append_left (by omega), if_pos him]
    simp [networkBytes]
  · rw [List.getElem_append_right (by omega), if_neg him]
    simp

/-- A node is read in masked form. -/
theorem wgAllowedipsReadNode_eq (hw : w % 8 = 0) (node : NodeData w) (hc : node.cidr ≤ w) :
    wgAllowedipsReadNode node = (networkBytes (maskKey node.bits node.cidr), node.cidr) := by
  -- Byte by byte: those before the end of the prefix, the one that it ends in, those behind it.
  have hbyte (i : Nat) (hi : i < w / 8) :
      ((maskKey node.bits node.cidr >>> (w - 8 - 8 * i)).setWidth 8 : BitVec 8) =
        if i < (node.cidr + 7) / 8 then
          if i = (node.cidr + 7) / 8 - 1 then
            (node.bits >>> (w - 8 - 8 * i)).setWidth 8 &&&
              (BitVec.allOnes 8 <<< ((8 - node.cidr % 8) % 8))
          else (node.bits >>> (w - 8 - 8 * i)).setWidth 8
        else 0 := by
    apply BitVec.eq_of_getLsbD_eq
    intro j hj
    rw [getLsbD_networkByte _ hj, getLsbD_maskKey]
    split
    · split
      · rw [getLsbD_and_shiftLeft _ _ hj, getLsbD_networkByte _ hj]
        congr 1
        rw [decide_eq_decide]
        omega
      · rw [getLsbD_networkByte _ hj]
        simp [show w - node.cidr ≤ w - 8 - 8 * i + j by omega]
    · simp [show ¬ w - node.cidr ≤ w - 8 - 8 * i + j by omega]
  simp only [wgAllowedipsReadNode, Prod.mk.injEq, and_true]
  have hm : (node.cidr + 7) / 8 ≤ w / 8 := by omega
  apply List.ext_getElem
  · have hsum : min ((node.cidr + 7) / 8) (w / 8) + (w / 8 - (node.cidr + 7) / 8) = w / 8 := by
      omega
    split <;> simp [networkBytes, hsum]
  · intro i hi hi'
    have hright : (networkBytes (maskKey node.bits node.cidr))[i] =
        (maskKey node.bits node.cidr >>> (w - 8 - 8 * i)).setWidth 8 := by
      simp [networkBytes]
    rw [hright, hbyte i (by simpa [networkBytes] using hi')]
    by_cases hzero : node.cidr = 0
    · simp [hzero]
    · simp only [hzero, ne_eq, not_false_eq_true, if_true, List.getElem_modify,
        getElem_padded node.bits hm, eq_comm (a := i)]
      by_cases hlt : i < (node.cidr + 7) / 8
      · simp only [if_pos hlt]
      · simp only [if_neg hlt, if_neg (show ¬ (node.cidr + 7) / 8 - 1 = i by omega)]

end Read

/-! ## The reference map -/

/-- The peer of each masked prefix and its length, for both families. -/
abbrev RefTable := (f : Family) → BitVec f.bits × Nat → Option PeerId

inductive Op where
  | insert (f : Family) (ip : BitVec f.bits) (cidr : Nat) (peer : PeerId)
  | remove (f : Family) (ip : BitVec f.bits) (cidr : Nat) (peer : PeerId)
  | removeByPeer (peer : PeerId)
  | free

/-- The value at the greatest argument up to a bound. -/
def longest {α : Type*} (g : Nat → Option α) : Nat → Option α
  | 0 => g 0
  | n + 1 => (g (n + 1)).or (longest g n)

namespace RefTable

def set (R : RefTable) (f : Family) (ip : BitVec f.bits) (cidr : Nat) (peer : Option PeerId) :
    RefTable :=
  Function.update R f (Function.update (R f) (maskKey ip cidr, cidr) peer)

def apply (R : RefTable) : Op → RefTable
  | .insert f ip cidr peer => if cidr ≤ f.bits then R.set f ip cidr (some peer) else R
  | .remove f ip cidr peer =>
      if cidr ≤ f.bits ∧ R f (maskKey ip cidr, cidr) = some peer then R.set f ip cidr none else R
  | .removeByPeer peer => fun f k => if R f k = some peer then none else R f k
  | .free => fun _ _ => none

def lookup (R : RefTable) (f : Family) (ip : BitVec f.bits) : Option PeerId :=
  longest (fun c => R f (maskKey ip c, c)) f.bits

end RefTable

namespace Table

def apply (T : Table) : Op → Table
  | .insert .inet ip cidr peer => (T.wgAllowedipsInsertV4 ip cidr peer).2
  | .insert .inet6 ip cidr peer => (T.wgAllowedipsInsertV6 ip cidr peer).2
  | .remove .inet ip cidr peer => (T.wgAllowedipsRemoveV4 ip cidr peer).2
  | .remove .inet6 ip cidr peer => (T.wgAllowedipsRemoveV6 ip cidr peer).2
  | .removeByPeer peer => T.wgAllowedipsRemoveByPeer peer
  | .free => T.wgAllowedipsFree

/-- What the list of a peer says, read node by node. -/
def listed (T : Table) (peer : PeerId) : List (Family × List (BitVec 8) × Nat) :=
  (T.lists peer).map fun item => (item.1, wgAllowedipsReadNode ((T.trie item.1).data item.2))

end Table

/-! ## Refinement -/

abbrev Forest := (f : Family) → KeyTree f.bits

theorem Family.bits_cases (f : Family) : f.bits = 32 ∨ f.bits = 128 := by
  cases f
  · exact .inl rfl
  · exact .inr rfl

/-- The tries are prefix trees, and the list of a peer consists of the nodes that hold it. -/
structure Shaped (T : Table) (F : Forest) : Prop where
  rep : ∀ f, (T.trie f).Rep .root (F f)
  fits : ∀ f, (F f).Fits keyBit f.bits 0 (fun _ => false)
  nodup : ∀ f, (F f).ids.Nodup
  lt_next : ∀ f, ∀ id ∈ (F f).ids, id < (T.trie f).next
  lists_nodup : ∀ peer, (T.lists peer).Nodup
  lists_mem : ∀ peer f id, (f, id) ∈ T.lists peer ↔ ∃ e ∈ (F f).entries, e.id = id ∧ e.value = peer

/-- The entries of the trees are those of the map. -/
def Reflects (F : Forest) (R : RefTable) : Prop :=
  ∀ f k c peer, R f (k, c) = some peer ↔
    ∃ e ∈ (F f).entries, e.len = c ∧ maskKey e.key c = k ∧ e.value = peer

theorem Shaped.sits {T : Table} {F : Forest} (h : Shaped T F) (f : Family) :
    (T.trie f).Sits .root (F f) :=
  ⟨h.nodup f, h.lt_next f, trivial⟩

theorem Shaped.init : Shaped .init fun _ => .empty where
  rep _ := rfl
  fits _ := trivial
  nodup _ := List.nodup_nil
  lt_next _ _ hid := absurd hid List.not_mem_nil
  lists_nodup _ := List.nodup_nil
  lists_mem _ _ _ := by simp [Table.init]

theorem Reflects.init : Reflects (fun _ => .empty) fun _ _ => none := by
  intro f k c peer
  simp

section Lists

variable {lists : PeerLists} {peer p : PeerId} {item i : Item}

theorem PeerLists.mem_del : i ∈ lists.del item p ↔ i ∈ lists p ∧ i ≠ item := by
  simp [PeerLists.del]

theorem PeerLists.mem_moveTail :
    i ∈ lists.moveTail peer item p ↔ (i ∈ lists p ∧ i ≠ item) ∨ (p = peer ∧ i = item) := by
  unfold PeerLists.moveTail PeerLists.addTail
  by_cases hp : p = peer
  · subst hp
    simp [PeerLists.mem_del]
  · simp [hp, PeerLists.mem_del]

theorem PeerLists.nodup_del (h : (lists p).Nodup) : (lists.del item p).Nodup := h.filter _

theorem PeerLists.nodup_moveTail (h : (lists p).Nodup) : (lists.moveTail peer item p).Nodup := by
  unfold PeerLists.moveTail PeerLists.addTail
  by_cases hp : p = peer
  · subst hp
    simp only [Function.update_self]
    apply (PeerLists.nodup_del h).append (List.nodup_singleton item)
    simp [PeerLists.mem_del]
  · simp only [Function.update_of_ne hp]
    exact PeerLists.nodup_del h

/-- An item that is on no list is added by moving it. -/
theorem PeerLists.addTail_eq_moveTail (h : ∀ p, item ∉ lists p) :
    lists.addTail peer item = lists.moveTail peer item := by
  have hdel : lists.del item = lists := by
    funext p
    apply List.filter_eq_self.mpr
    intro i hi
    simpa using ne_of_mem_of_not_mem hi (h p)
  rw [PeerLists.moveTail, hdel]

end Lists

/-! ### Insertion -/

section Insert

variable {T : Table} {F : Forest} {R : RefTable}

/-- The label of the node that takes a prefix. -/
def placedAt (T : Table) (F : Forest) (f : Family) (ip : BitVec f.bits) (cidr : Nat) : NodeId :=
  ((F f).placed keyBit ip cidr (T.trie f).next).1

theorem Shaped.fresh (h : Shaped T F) (f : Family) (peer : PeerId) :
    (f, (T.trie f).next) ∉ T.lists peer := by
  rw [h.lists_mem]
  rintro ⟨e, he, hid, -⟩
  exact absurd (h.lt_next f _ (Tree.mem_ids_of_mem_entries he)) (by simp [hid])

/-- `add` inserts into the tree and puts the node of the prefix at the end of the peer's list. -/
theorem Shaped.add_eq (h : Shaped T F) (f : Family) (ip : BitVec f.bits) {cidr : Nat}
    (peer : PeerId) (hc : cidr ≤ f.bits) :
    ∃ t, add f 2 (T.trie f) T.lists ip cidr peer =
        (.ok, t, T.lists.moveTail peer (f, placedAt T F f ip cidr)) ∧
      Trie.Inserted (T.trie f) .root (F f) ip cidr peer t := by
  have hfresh : T.lists.addTail peer (f, (T.trie f).next) =
      T.lists.moveTail peer (f, (T.trie f).next) :=
    PeerLists.addTail_eq_moveTail (h.fresh f)
  have hplaced : Trie.Placed (T.trie f) .root (F f) ip cidr peer
      ((T.trie f).nodePlacement ip cidr) :=
    Trie.nodePlacementLoop_placed f.bits_cases (h.rep f) (h.fits f) (h.sits f) hc rfl
      (show f.bits + 2 ≤ f.bits + 2 + 0 from le_rfl) (Nat.zero_le _)
  unfold add
  rw [if_neg (Nat.not_lt.mpr hc)]
  cases hroot : (T.trie f).root with
  | none =>
    have hempty : F f = .empty := (h.rep f).read_isNone.mp (by simp [Trie.read, hroot])
    refine ⟨((T.trie f).newNode ip cidr (some peer)).connectNode .root (T.trie f).next, ?_, ?_⟩
    swap
    · rw [hempty]
      exact Trie.newNode_inserted trivial
    have hnext : placedAt T F f ip cidr = (T.trie f).next := by
      rw [placedAt, hempty]
      rfl
    simp only [hnext, ← hfresh]
    rfl
  | some root =>
    rcases hplaced with ⟨id, hr, hid, hins⟩ | ⟨q, t, hr, hid, hattach, hins⟩
    · refine ⟨_, ?_, hins⟩
      simp only [hr, placedAt, hid]
    · refine ⟨t, ?_, hins⟩
      simp only [hr, placedAt, hid, ← hfresh]
      simp [hattach]

theorem Reflects.insert (h : Shaped T F) (hR : Reflects F R) (f : Family) (ip : BitVec f.bits)
    {cidr : Nat} (peer : PeerId) (hc : cidr ≤ f.bits) (x y : NodeId) :
    Reflects
      (Function.update F f ((F f).insert keyBit commonBits ip cidr peer x y))
      (R.set f ip cidr (some peer)) := by
  intro g k c q
  by_cases hg : g = f
  · subst hg
    simp only [RefTable.set, Function.update_self, Tree.mem_entries_insert (h.fits g) hc]
    have hplaced := (agree_iff_maskKey_eq hc).mp
      (Tree.agree_placed keyBit ip cidr x (F g))
    by_cases hk : (k, c) = (maskKey ip cidr, cidr)
    · obtain ⟨rfl, rfl⟩ := Prod.mk.inj hk
      rw [Function.update_self]
      constructor
      · rintro ⟨⟩
        exact ⟨_, .inl rfl, rfl, hplaced, rfl⟩
      · rintro ⟨e, rfl | ⟨-, hmiss⟩, hlen, hmask, rfl⟩
        · rfl
        · exact absurd ⟨hlen, (agree_iff_maskKey_eq hc).mpr hmask⟩ hmiss
    · rw [Function.update_of_ne hk, hR g k c q]
      constructor
      · rintro ⟨e, he, hlen, hmask, hq⟩
        refine ⟨e, .inr ⟨he, ?_⟩, hlen, hmask, hq⟩
        rintro ⟨rfl, hagree⟩
        exact hk (by rw [← hmask, ← hlen, (agree_iff_maskKey_eq hc).mp hagree])
      · rintro ⟨e, rfl | ⟨he, -⟩, hlen, hmask, hq⟩
        · exact absurd (by rw [← hmask, ← hlen, hplaced]) hk
        · exact ⟨e, he, hlen, hmask, hq⟩
  · simp only [RefTable.set, Function.update_of_ne hg]
    exact hR g k c q

theorem Shaped.insert (h : Shaped T F) (f : Family) (ip : BitVec f.bits) {cidr : Nat}
    (peer : PeerId) (hc : cidr ≤ f.bits) :
    Shaped (T.insertFamily f ip cidr peer).2
      (Function.update F f ((F f).insert keyBit commonBits ip cidr peer (T.trie f).next
        ((T.trie f).next + 1))) := by
  obtain ⟨t, hadd, hins⟩ := h.add_eq f ip peer hc
  have hnotMem : (T.trie f).next ∉ (F f).ids := fun hmem => lt_irrefl _ (h.lt_next f _ hmem)
  have hnotMem' : (T.trie f).next + 1 ∉ (F f).ids :=
    fun hmem => absurd (h.lt_next f _ hmem) (Nat.not_lt.mpr (Nat.le_succ _))
  simp only [Table.insertFamily, hadd]
  refine ⟨?_, ?_, ?_, ?_, ?_, ?_⟩
  · intro g
    by_cases hg : g = f
    · subst hg
      simpa using hins.rep
    · simpa [hg] using h.rep g
  · intro g
    by_cases hg : g = f
    · subst hg
      simpa using (h.fits g).insert (le_commonBits_iff g.bits_cases) (Nat.zero_le _) hc (by simp)
    · simpa [hg] using h.fits g
  · intro g
    by_cases hg : g = f
    · subst hg
      simpa using Tree.nodup_ids_insert (h.nodup g) hnotMem hnotMem' (Nat.lt_succ_self _).ne
    · simpa [hg] using h.nodup g
  · intro g
    by_cases hg : g = f
    · subst hg
      simpa using hins.lt_next
    · simpa [hg] using h.lt_next g
  · exact fun q => PeerLists.nodup_moveTail (h.lists_nodup q)
  · intro q g id
    rw [PeerLists.mem_moveTail, h.lists_mem]
    by_cases hg : g = f
    · subst hg
      have hiff (e : Entry NodeId (BitVec g.bits) PeerId) (he : e ∈ (F g).entries) :
          e.id = placedAt T F g ip cidr ↔ e.len = cidr ∧ Agree keyBit cidr e.key ip :=
        Tree.id_eq_placed_iff (h.fits g) (h.nodup g) hnotMem he
      simp only [Function.update_self, Tree.mem_entries_insert (h.fits g) hc, ne_eq, Prod.mk.injEq,
        true_and]
      constructor
      · rintro (⟨⟨e, he, rfl, rfl⟩, hne⟩ | ⟨rfl, rfl⟩)
        · exact ⟨e, .inr ⟨he, mt (hiff e he).mpr hne⟩, rfl, rfl⟩
        · exact ⟨_, .inl rfl, rfl, rfl⟩
      · rintro ⟨e, rfl | ⟨he, hmiss⟩, rfl, rfl⟩
        · exact .inr ⟨rfl, rfl⟩
        · exact .inl ⟨⟨e, he, rfl, rfl⟩, mt (hiff e he).mp hmiss⟩
    · simp [hg]

end Insert

/-! ### Removal -/

section Remove

variable {T : Table} {F : Forest} {R : RefTable} {f : Family} {id : NodeId}

theorem Shaped.removeItem (h : Shaped T F) (hid : id ∈ (F f).ids) :
    Shaped (T.removeItem (f, id)) (Function.update F f ((F f).remove id)) := by
  obtain ⟨hrep, hframe⟩ := Trie.removeNode_spec (h.rep f) (h.fits f) (h.sits f) hid
    (fun _ _ _ _ q b hroot => by cases hroot)
  refine ⟨?_, ?_, ?_, ?_, ?_, ?_⟩
  · intro g
    by_cases hg : g = f
    · subst hg
      simpa [Table.removeItem] using hrep
    · simpa [Table.removeItem, hg] using h.rep g
  · intro g
    by_cases hg : g = f
    · subst hg
      simpa using (h.fits g).remove
    · simpa [hg] using h.fits g
  · intro g
    by_cases hg : g = f
    · subst hg
      simpa using (h.nodup g).sublist (Tree.ids_remove _ id)
    · simpa [hg] using h.nodup g
  · intro g
    by_cases hg : g = f
    · subst hg
      simp only [Table.removeItem, Function.update_self]
      intro z hz
      exact (h.lt_next g z ((Tree.ids_remove _ id).subset hz)).trans_le hframe.next
    · simpa [Table.removeItem, hg] using h.lt_next g
  · exact fun q => PeerLists.nodup_del (h.lists_nodup q)
  · intro q g z
    simp only [Table.removeItem, PeerLists.mem_del, h.lists_mem]
    by_cases hg : g = f
    · subst hg
      simp only [Function.update_self, Tree.entries_remove, List.mem_filter, ne_eq, Prod.mk.injEq,
        true_and, decide_not, Bool.not_eq_true', decide_eq_false_iff_not]
      constructor
      · rintro ⟨⟨e, he, rfl, rfl⟩, hne⟩
        exact ⟨e, ⟨he, hne⟩, rfl, rfl⟩
      · rintro ⟨e, ⟨he, hne⟩, rfl, rfl⟩
        exact ⟨⟨e, he, rfl, rfl⟩, hne⟩
    · simp [hg]

/-- The function `remove` acts on the node of the prefix, if it is the peer's. -/
theorem Shaped.remove_eq (h : Shaped T F) (f : Family) (ip : BitVec f.bits) {cidr : Nat}
    (peer : PeerId) (hc : cidr ≤ f.bits) :
    (∃ id, (F f).find keyBit ip cidr = some (id, some peer) ∧
        (T.removeFamily f ip cidr peer).2 =
          { T.removeItem (f, id) with seq := T.seq + 1 }) ∨
      ((∀ id, (F f).find keyBit ip cidr ≠ some (id, some peer)) ∧
        (T.removeFamily f ip cidr peer).2 = { T with seq := T.seq + 1 }) := by
  have hfind := @Trie.nodePlacementLoop_find _ _ _ f.bits_cases _ ip cidr 0 (f.bits + 2) _ none
    (h.rep f) (h.fits f) hc le_rfl (Nat.zero_le _)
  cases hf : (F f).find keyBit ip cidr with
  | none =>
    right
    refine ⟨fun id => by simp, ?_⟩
    rw [hf] at hfind
    simp only [Table.removeFamily, remove, if_neg (Nat.not_lt.mpr hc)]
    cases hroot : (T.trie f).root with
    | none => simp
    | some root =>
      have hmiss : ((T.trie f).nodePlacement ip cidr).1 = false := hfind
      cases hplace : (T.trie f).nodePlacement ip cidr with
      | mk exact parent =>
        rw [hplace] at hmiss
        simp [show exact = false from hmiss]
  | some found =>
    obtain ⟨id, value⟩ := found
    rw [hf] at hfind
    obtain ⟨hloop, hpeer⟩ := hfind
    have hplace : (T.trie f).nodePlacement ip cidr = (true, some id) := hloop
    have hroot : ∃ root, (T.trie f).root = some root := by
      by_contra hnone
      have hempty : F f = .empty := by
        apply (h.rep f).read_isNone.mp
        simp only [Trie.read, Option.isNone_iff_eq_none]
        exact Option.eq_none_iff_forall_ne_some.mpr fun root hr => hnone ⟨root, hr⟩
      rw [hempty] at hf
      cases hf
    obtain ⟨root, hroot⟩ := hroot
    have hpeer' : ((T.trie f).node id).peer = value := hpeer
    by_cases hown : some peer = value
    · subst hown
      left
      refine ⟨id, rfl, ?_⟩
      simp [Table.removeFamily, remove, Nat.not_lt.mpr hc, hroot, hplace, hpeer', Table.removeItem]
    · right
      refine ⟨fun id' hid' => hown (by simpa using (congrArg Prod.snd (Option.some.inj hid')).symm),
        ?_⟩
      simp [Table.removeFamily, remove, Nat.not_lt.mpr hc, hroot, hplace, hpeer', hown]

theorem Shaped.seq (h : Shaped T F) (n : Nat) : Shaped { T with seq := n } F :=
  ⟨h.rep, h.fits, h.nodup, h.lt_next, h.lists_nodup, h.lists_mem⟩

/-- Without the node of a prefix, the map is without the prefix. -/
theorem Reflects.remove (h : Shaped T F) (hR : Reflects F R) {ip : BitVec f.bits} {cidr : Nat}
    {peer : PeerId} (hc : cidr ≤ f.bits)
    (hfind : (F f).find keyBit ip cidr = some (id, some peer)) :
    R f (maskKey ip cidr, cidr) = some peer ∧
      Reflects (Function.update F f ((F f).remove id)) (R.set f ip cidr none) := by
  obtain ⟨e₀, he₀, hid₀, hlen₀, hagree₀, hpeer₀⟩ := (Tree.find_eq_some_iff (h.fits f)).mp hfind
  refine ⟨(hR f _ _ _).mpr ⟨e₀, he₀, hlen₀, (agree_iff_maskKey_eq hc).mp hagree₀, hpeer₀⟩, ?_⟩
  intro g k c q
  by_cases hg : g = f
  · subst hg
    simp only [RefTable.set, Function.update_self, Tree.entries_remove, List.mem_filter]
    by_cases hk : (k, c) = (maskKey ip cidr, cidr)
    · obtain ⟨rfl, rfl⟩ := Prod.mk.inj hk
      rw [Function.update_self]
      refine iff_of_false (by simp) ?_
      rintro ⟨e, ⟨he, hne⟩, hlen, hmask, -⟩
      have hagree : Agree keyBit e.len e.key e₀.key := by
        rw [hlen, agree_iff_maskKey_eq hc, hmask, (agree_iff_maskKey_eq hc).mp hagree₀]
      have heq := (h.fits g).entry_unique he he₀ (hlen.trans hlen₀.symm) hagree
      simp [heq, hid₀] at hne
    · rw [Function.update_of_ne hk, hR g k c q]
      constructor
      · rintro ⟨e, he, hlen, hmask, hq⟩
        refine ⟨e, ⟨he, ?_⟩, hlen, hmask, hq⟩
        simp only [ne_eq, decide_not, Bool.not_eq_true', decide_eq_false_iff_not]
        intro hid
        obtain rfl := Tree.entry_eq_of_id_eq (h.nodup g) he he₀ (hid.trans hid₀.symm)
        exact hk (by rw [← hmask, ← hlen, hlen₀, (agree_iff_maskKey_eq hc).mp hagree₀])
      · rintro ⟨e, ⟨he, -⟩, hlen, hmask, hq⟩
        exact ⟨e, he, hlen, hmask, hq⟩
  · simp only [RefTable.set, Function.update_of_ne hg]
    exact hR g k c q

/-- The loop of `wg_allowedips_remove_by_peer` removes what is on the list and nothing else. -/
theorem Shaped.removeItems (h : Shaped T F) (peer : PeerId) (items : List Item)
    (hnodup : items.Nodup) (hmem : ∀ item ∈ items, item ∈ T.lists peer) :
    ∃ F', Shaped (items.foldl Table.removeItem T) F' ∧
      ∀ g e, e ∈ (F' g).entries ↔ e ∈ (F g).entries ∧ (g, e.id) ∉ items := by
  induction items generalizing T F with
  | nil => exact ⟨F, h, by simp⟩
  | cons item rest ih =>
    obtain ⟨f, id⟩ := item
    obtain ⟨hitem, hrest⟩ := List.nodup_cons.mp hnodup
    obtain ⟨e, he, rfl, -⟩ := (h.lists_mem peer f id).mp (hmem _ List.mem_cons_self)
    have hnext := h.removeItem (Tree.mem_ids_of_mem_entries he)
    obtain ⟨F', hF', hentries⟩ := ih hnext hrest (by
      intro i hi
      refine PeerLists.mem_del.mpr ⟨hmem i (List.mem_cons_of_mem _ hi), ?_⟩
      exact ne_of_mem_of_not_mem hi hitem)
    refine ⟨F', hF', ?_⟩
    intro g e'
    rw [hentries, List.mem_cons, not_or]
    by_cases hg : g = f
    · subst hg
      simp only [Function.update_self, Tree.entries_remove, List.mem_filter, ne_eq, decide_not,
        Bool.not_eq_true', decide_eq_false_iff_not, Prod.mk.injEq, true_and, and_assoc]
    · simp [hg]

theorem Shaped.removeByPeer (h : Shaped T F) (hR : Reflects F R) (peer : PeerId) :
    ∃ F', Shaped (T.wgAllowedipsRemoveByPeer peer) F' ∧
      Reflects F' (R.apply (.removeByPeer peer)) := by
  obtain ⟨F', hF', hentries⟩ := (h.seq (T.seq + 1)).removeItems peer (T.lists peer)
    (h.lists_nodup peer) (fun _ hi => hi)
  have hreflects : Reflects F' (R.apply (.removeByPeer peer)) := by
    intro g k c q
    simp only [RefTable.apply, hentries, h.lists_mem]
    constructor
    · intro hq
      obtain ⟨hne, hheld⟩ := Option.ite_none_left_eq_some.mp hq
      obtain ⟨e, he, hlen, hmask, rfl⟩ := (hR g k c q).mp hheld
      refine ⟨e, ⟨he, ?_⟩, hlen, hmask, rfl⟩
      rintro ⟨e', he', hid, rfl⟩
      obtain rfl := Tree.entry_eq_of_id_eq (h.nodup g) he he' hid.symm
      exact hne hheld
    · rintro ⟨e, ⟨he, hmiss⟩, hlen, hmask, rfl⟩
      have hq := (hR g k c e.value).mpr ⟨e, he, hlen, hmask, rfl⟩
      rw [if_neg, hq]
      rw [hq]
      rintro ⟨⟩
      exact hmiss ⟨e, he, rfl, rfl⟩
  unfold Table.wgAllowedipsRemoveByPeer
  split
  · next hnil =>
    -- Nothing is on the list, so that nothing is removed.
    refine ⟨F, h, ?_⟩
    intro g k c q
    rw [hreflects g k c q]
    simp only [hentries, hnil, List.not_mem_nil, not_false_eq_true, and_true]
  · exact ⟨F', hF', hreflects⟩

/-! ### Freeing the table -/

/-- The nodes of a tree that are on the list of a peer. -/
def items {w : Nat} (f : Family) (tree : KeyTree w) : List Item :=
  tree.entries.map fun e => (f, e.id)

theorem items_node {w : Nat} (f : Family) {id : NodeId} {key : BitVec w} {len : Nat}
    {value : Option PeerId} {left right : KeyTree w} :
    items f (.node id key len value left right) =
      (if value.isSome then [(f, id)] else []) ++ (items f left ++ items f right) := by
  cases value <;> simp [items, Tree.entries]

/-- The loop takes the items of the trees on its stack from the lists. The induction is on the nodes
and the slots that are left. -/
theorem rootRemovePeerListsLoop_eq {w : Nat} (f : Family) (t : Trie w)
    (stack : List (Slot × KeyTree w)) (fuel : Nat) (lists : PeerLists)
    (hrep : ∀ x ∈ stack, t.Rep x.1 x.2) (hfuel : (stack.map fun x => x.2.ids.length).sum < fuel)
    (p : PeerId) :
    rootRemovePeerListsLoop f t fuel (stack.flatMap fun x => (t.read x.1).toList) lists p =
      (lists p).filter (· ∉ stack.flatMap fun x => items f x.2) := by
  induction hn : (stack.map fun x => 2 * x.2.ids.length + 1).sum using Nat.strong_induction_on
    generalizing stack fuel lists with
  | _ n ih =>
    cases stack with
    | nil =>
      cases fuel <;> simp [rootRemovePeerListsLoop]
    | cons top rest =>
      obtain ⟨s, tree⟩ := top
      have htop : t.Rep s tree := hrep (s, tree) List.mem_cons_self
      have hbelow : ∀ x ∈ rest, t.Rep x.1 x.2 := fun x hx => hrep x (List.mem_cons_of_mem _ hx)
      simp only [List.map_cons, List.sum_cons] at hfuel hn
      cases tree with
      | empty =>
        have hnone : t.read s = none := htop
        have h := ih _ (by omega) rest fuel lists hbelow (by simpa [Tree.ids] using hfuel) rfl
        rw [List.flatMap_cons, hnone, Option.toList_none, List.nil_append, h, List.flatMap_cons]
        rfl
      | node id key len value left right =>
        obtain ⟨hread, hdesc, hleft, hright⟩ := htop
        simp only [Tree.ids, List.length_cons, List.length_append] at hfuel hn
        obtain ⟨fuel, rfl⟩ : ∃ m, fuel = m + 1 := ⟨fuel - 1, by omega⟩
        have h := ih _ ?_ ((.bit id true, right) :: (.bit id false, left) :: rest) fuel
          (if value.isSome then lists.del (f, id) else lists) ?_ ?_ rfl
        · simp only [List.flatMap_cons, hread, Option.toList_some, List.singleton_append,
            rootRemovePeerListsLoop, Trie.node_bit, Trie.toNodeData_node, hdesc,
            Trie.described_peer] at h ⊢
          rw [h, items_node]
          cases value with
          | none =>
            apply List.filter_congr
            intro i _
            simp only [Option.isSome_none, Bool.false_eq_true, if_false, List.nil_append,
              List.mem_append, not_or, decide_eq_decide]
            tauto
          | some v =>
            simp only [Option.isSome_some, if_true, PeerLists.del, List.filter_filter]
            apply List.filter_congr
            intro i _
            simp only [List.mem_append, List.mem_singleton, not_or, ne_eq, ← Bool.decide_and,
              decide_eq_decide]
            tauto
        · simp only [List.map_cons, List.sum_cons]
          omega
        · intro x hx
          rcases List.mem_cons.mp hx with rfl | hx
          · exact hright
          · rcases List.mem_cons.mp hx with rfl | hx
            · exact hleft
            · exact hbelow x hx
        · simp only [List.map_cons, List.sum_cons]
          omega

/-- Distinct labels below a bound are not more than the bound. -/
theorem length_ids_le {w : Nat} {tree : KeyTree w} {n : NodeId} (hnodup : tree.ids.Nodup)
    (hlt : ∀ id ∈ tree.ids, id < n) : tree.ids.length ≤ n := by
  have hsub : tree.ids ⊆ List.range n := fun id hid => List.mem_range.mpr (hlt id hid)
  simpa using (hnodup.subperm hsub).length_le

theorem Shaped.freeRoot_eq (h : Shaped T F) (f : Family) (lists : PeerLists) (p : PeerId) :
    T.freeRoot f lists p = (lists p).filter (· ∉ items f (F f)) := by
  have hrep := h.rep f
  have hloop := rootRemovePeerListsLoop_eq f (T.trie f) [(.root, F f)] ((T.trie f).next + 1) lists
    (by simpa using hrep)
    (by simpa using Nat.lt_succ_of_le (length_ids_le (h.nodup f) (h.lt_next f))) p
  simp only [List.flatMap_cons, List.flatMap_nil, List.append_nil] at hloop
  rw [← hloop, Table.freeRoot]
  cases hroot : (T.trie f).root with
  | none => simp [Trie.read, hroot, rootRemovePeerListsLoop]
  | some root => simp [Trie.read, hroot, rootRemovePeerLists]

theorem Shaped.free (h : Shaped T F) : Shaped T.wgAllowedipsFree fun _ => .empty := by
  have hlists (p : PeerId) : T.wgAllowedipsFree.lists p = [] := by
    simp only [Table.wgAllowedipsFree, h.freeRoot_eq, List.filter_filter]
    apply List.filter_eq_nil_iff.mpr
    rintro ⟨f, id⟩ hmem
    obtain ⟨e, he, rfl, -⟩ := (h.lists_mem p f id).mp hmem
    have hitem : (f, e.id) ∈ items f (F f) := List.mem_map.mpr ⟨e, he, rfl⟩
    cases f <;> simp [hitem]
  refine ⟨fun _ => rfl, fun _ => trivial, fun _ => List.nodup_nil, ?_, ?_, ?_⟩
  · exact fun _ _ hid => absurd hid List.not_mem_nil
  · intro p
    rw [hlists]
    exact List.nodup_nil
  · intro p f id
    simp [hlists]

end Remove

/-! ### The whole table -/

section Refines

variable {T : Table} {F : Forest} {R : RefTable}

/-- Every operation on the table is the one on the map. -/
theorem Shaped.apply (h : Shaped T F) (hR : Reflects F R) (op : Op) :
    ∃ F', Shaped (T.apply op) F' ∧ Reflects F' (R.apply op) := by
  cases op with
  | insert f ip cidr peer =>
    have happly : T.apply (.insert f ip cidr peer) = (T.insertFamily f ip cidr peer).2 := by
      cases f <;> rfl
    rw [happly, RefTable.apply]
    split
    · next hc => exact ⟨_, h.insert f ip peer hc, hR.insert h f ip peer hc _ _⟩
    · next hc =>
      refine ⟨F, ?_, hR⟩
      simpa [Table.insertFamily, add, Nat.lt_of_not_le hc] using h.seq (T.seq + 1)
  | remove f ip cidr peer =>
    have happly : T.apply (.remove f ip cidr peer) = (T.removeFamily f ip cidr peer).2 := by
      cases f <;> rfl
    rw [happly, RefTable.apply]
    by_cases hc : cidr ≤ f.bits
    · rcases h.remove_eq f ip peer hc with ⟨id, hfind, hT⟩ | ⟨hfind, hT⟩
      · obtain ⟨hheld, hreflects⟩ := hR.remove h hc hfind
        rw [hT, if_pos ⟨hc, hheld⟩]
        exact ⟨_, (h.removeItem (Tree.mem_ids_of_find hfind)).seq _, hreflects⟩
      · rw [hT, if_neg]
        · exact ⟨F, h.seq _, hR⟩
        · rintro ⟨-, hheld⟩
          obtain ⟨e, he, hlen, hmask, hpeer⟩ := (hR f _ _ _).mp hheld
          exact hfind e.id ((Tree.find_eq_some_iff (h.fits f)).mpr
            ⟨e, he, rfl, hlen, (agree_iff_maskKey_eq hc).mpr hmask, hpeer⟩)
    · rw [if_neg fun h => hc h.1]
      refine ⟨F, ?_, hR⟩
      simpa [Table.removeFamily, remove, Nat.lt_of_not_le hc] using h.seq (T.seq + 1)
  | removeByPeer peer => exact h.removeByPeer hR peer
  | free =>
    refine ⟨_, h.free, ?_⟩
    intro f k c peer
    simp [RefTable.apply]

theorem longest_eq_none {α : Type*} {g : Nat → Option α} {n : Nat} (h : ∀ c ≤ n, g c = none) :
    longest g n = none := by
  induction n with
  | zero => exact h 0 le_rfl
  | succ n ih =>
    rw [longest, h (n + 1) le_rfl, ih fun c hc => h c (by omega)]
    rfl

theorem longest_eq_some {α : Type*} {g : Nat → Option α} {n c : Nat} {v : α} (hc : c ≤ n)
    (hv : g c = some v) (h : ∀ d ≤ n, c < d → g d = none) : longest g n = some v := by
  induction n with
  | zero =>
    obtain rfl : c = 0 := by omega
    exact hv
  | succ n ih =>
    rw [longest]
    by_cases hn : c = n + 1
    · rw [← hn, hv]
      rfl
    · rw [h (n + 1) le_rfl (by omega)]
      exact ih (by omega) fun d hd => h d (by omega)

/-- Lookup in the table is lookup in the map. -/
theorem Shaped.lookup_eq (h : Shaped T F) (hR : Reflects F R) (f : Family) (ip : BitVec f.bits) :
    T.lookup f ip = R.lookup f ip := by
  have hmatch : Tree.LongestMatch keyBit ip (F f).entries (T.lookup f ip) := by
    rw [Table.lookup, Trie.lookup_eq f.bits_cases (h.rep f) (h.fits f)]
    exact Tree.lookup_longestMatch (h.fits f)
  -- A prefix of the address in the map is an entry that matches.
  have hentry {c : Nat} (hc : c ≤ f.bits) {peer : PeerId}
      (hheld : R f (maskKey ip c, c) = some peer) :
      ∃ e ∈ (F f).entries, e.len = c ∧ e.Matches keyBit ip ∧ e.value = peer := by
    obtain ⟨e, he, rfl, hmask, hpeer⟩ := (hR f _ _ _).mp hheld
    exact ⟨e, he, rfl, (agree_iff_maskKey_eq hc).mpr hmask, hpeer⟩
  cases hlookup : T.lookup f ip with
  | none =>
    rw [hlookup] at hmatch
    symm
    apply longest_eq_none
    intro c hc
    apply Option.eq_none_iff_forall_ne_some.mpr
    intro peer hheld
    obtain ⟨e, he, -, hm, -⟩ := hentry hc hheld
    exact hmatch e he hm
  | some v =>
    rw [hlookup] at hmatch
    obtain ⟨e, he, hm, rfl, hlongest⟩ := hmatch
    have hlen := ((h.fits f).of_mem he).2.1
    symm
    apply longest_eq_some hlen
    · exact (hR f _ _ _).mpr ⟨e, he, rfl, (agree_iff_maskKey_eq hlen).mp hm, rfl⟩
    · intro c hc hlt
      apply Option.eq_none_iff_forall_ne_some.mpr
      intro peer hheld
      obtain ⟨e', he', rfl, hm', -⟩ := hentry hc hheld
      exact absurd (hlongest e' he' hm') (Nat.not_le.mpr hlt)

/-- The node of an entry. -/
theorem Trie.Rep.data_of_mem {w : Nat} {t : Trie w} {s : Slot} {tree : KeyTree w}
    (h : t.Rep s tree) {e : Entry NodeId (BitVec w) PeerId} (he : e ∈ tree.entries) :
    (t.data e.id).bits = e.key ∧ (t.data e.id).cidr = e.len := by
  induction tree generalizing s with
  | empty => cases he
  | node id key len value left right ihl ihr =>
    rcases Tree.mem_entries_node.mp he with ⟨hid, hkey, hlen, -⟩ | hmem | hmem
    · rw [hid, h.2.1, hkey, hlen]
      exact ⟨rfl, rfl⟩
    · exact ihl h.2.2.1 hmem
    · exact ihr h.2.2.2 hmem

theorem Family.bits_mod (f : Family) : f.bits % 8 = 0 := by
  cases f <;> rfl

/-- What is read of the node of an entry. -/
theorem Shaped.read_of_mem (h : Shaped T F) {f : Family} {e : Entry NodeId (BitVec f.bits) PeerId}
    (he : e ∈ (F f).entries) :
    wgAllowedipsReadNode ((T.trie f).data e.id) = (networkBytes (maskKey e.key e.len), e.len) := by
  obtain ⟨hkey, hlen⟩ := (h.rep f).data_of_mem he
  have hle : ((T.trie f).data e.id).cidr ≤ f.bits := hlen ▸ ((h.fits f).of_mem he).2.1
  rw [wgAllowedipsReadNode_eq f.bits_mod _ hle, hkey, hlen]

/-- The list of a peer is the set of its prefixes. -/
theorem Shaped.mem_listed_iff (h : Shaped T F) (hR : Reflects F R) (peer : PeerId) (f : Family)
    (bytes : List (BitVec 8)) (cidr : Nat) :
    (f, bytes, cidr) ∈ T.listed peer ↔ ∃ k, R f (k, cidr) = some peer ∧ bytes = networkBytes k := by
  constructor
  · intro hmem
    obtain ⟨⟨g, id⟩, hitem, heq⟩ := List.mem_map.mp hmem
    obtain ⟨e, he, rfl, hpeer⟩ := (h.lists_mem peer g id).mp hitem
    rw [h.read_of_mem he] at heq
    cases heq
    exact ⟨_, (hR g _ _ _).mpr ⟨e, he, rfl, rfl, hpeer⟩, rfl⟩
  · rintro ⟨k, hheld, rfl⟩
    obtain ⟨e, he, rfl, rfl, hpeer⟩ := (hR f _ _ _).mp hheld
    refine List.mem_map.mpr ⟨(f, e.id), (h.lists_mem peer f e.id).mpr ⟨e, he, rfl, hpeer⟩, ?_⟩
    rw [h.read_of_mem he]

/-- No prefix is on a list twice. -/
theorem Shaped.nodup_listed (h : Shaped T F) (peer : PeerId) : (T.listed peer).Nodup := by
  apply (h.lists_nodup peer).map_on
  rintro ⟨f, id⟩ hmem ⟨g, id'⟩ hmem' heq
  obtain ⟨e, he, rfl, -⟩ := (h.lists_mem peer f id).mp hmem
  obtain ⟨e', he', rfl, -⟩ := (h.lists_mem peer g id').mp hmem'
  obtain rfl : f = g := congrArg Prod.fst heq
  have hread := congrArg Prod.snd heq
  simp only [h.read_of_mem he, h.read_of_mem he', Prod.mk.injEq] at hread
  have hle := ((h.fits f).of_mem he).2.1
  have hmask : maskKey e.key e.len = maskKey e'.key e.len := by
    rw [networkBytes_injective f.bits_mod hread.1, hread.2]
  rw [(h.fits f).entry_unique he he' hread.2 ((agree_iff_maskKey_eq hle).mpr hmask)]

/-- After any operations, lookup in the table is the longest prefix match in the map of masked
prefixes, and the list of each peer, read node by node, has exactly the prefixes of the peer, each
once. -/
theorem allowedips_longest_prefix_match (ops : List Op) :
    (∀ f ip, (ops.foldl Table.apply .init).lookup f ip =
        RefTable.lookup (ops.foldl RefTable.apply fun _ _ => none) f ip) ∧
      ∀ peer, ((ops.foldl Table.apply .init).listed peer).Nodup ∧
        ∀ f bytes cidr, (f, bytes, cidr) ∈ (ops.foldl Table.apply .init).listed peer ↔
          ∃ k, (ops.foldl RefTable.apply fun _ _ => none) f (k, cidr) = some peer ∧
            bytes = networkBytes k := by
  have hrun (T : Table) (R : RefTable) (h : ∃ F, Shaped T F ∧ Reflects F R) :
      ∃ F, Shaped (ops.foldl Table.apply T) F ∧ Reflects F (ops.foldl RefTable.apply R) := by
    induction ops generalizing T R with
    | nil => exact h
    | cons op rest ih =>
      obtain ⟨F, hF, hR⟩ := h
      exact ih _ _ (hF.apply hR op)
  obtain ⟨F, hF, hR⟩ := hrun .init (fun _ _ => none) ⟨_, Shaped.init, Reflects.init⟩
  refine ⟨hF.lookup_eq hR, fun peer => ⟨hF.nodup_listed peer, ?_⟩⟩
  exact hF.mem_listed_iff hR peer

-- 10.0.0.0/8 and 10.1.0.0/16, the second given with host bits.
example :
    ([.insert .inet 0x0a000000#32 8 1, .insert .inet 0x0a010203#32 16 2].foldl Table.apply
      .init).lookup .inet 0x0a01ffff#32 = some 2 := by
  decide +kernel

end Refines

end AllowedIps

end WgTcp
