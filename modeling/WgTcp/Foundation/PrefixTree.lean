import Mathlib

/-!
# Path-compressed prefix trees

A binary tree whose nodes carry a prefix (a key and the number of its leading
bits that count) and perhaps a value. The path to a node is compressed: a child
may be longer than its parent by more than one bit, and a node without a value
exists only to branch. Nodes also carry a label, by which they can be removed.

`Fits` is the order of the tree. For trees that fit, lookup finds the value of
the longest prefix, and insertion and removal change the set of entries as they
should.
-/

namespace PrefixTree

variable {ι κ α : Type*}

/-- Two keys have the same first `n` bits. -/
def Agree (bit : κ → ℕ → Bool) (n : ℕ) (a b : κ) : Prop := ∀ i < n, bit a i = bit b i

instance (bit : κ → ℕ → Bool) (n : ℕ) (a b : κ) : Decidable (Agree bit n a b) :=
  inferInstanceAs (Decidable (∀ i < n, _))

/-- A prefix and its value, with the label of the node that holds them. -/
structure Entry (ι κ α : Type*) where
  id : ι
  key : κ
  len : ℕ
  value : α

/-- The entry is for a prefix of the key. -/
def Entry.Matches (bit : κ → ℕ → Bool) (k : κ) (e : Entry ι κ α) : Prop := Agree bit e.len e.key k

inductive Tree (ι κ α : Type*) where
  | empty
  | node (id : ι) (key : κ) (len : ℕ) (value : Option α) (left right : Tree ι κ α)

namespace Tree

def entries : Tree ι κ α → List (Entry ι κ α)
  | .empty => []
  | .node id key len value left right =>
      (value.toList.map fun v => ⟨id, key, len, v⟩) ++ (left.entries ++ right.entries)

def ids : Tree ι κ α → List ι
  | .empty => []
  | .node id _ _ _ left right => id :: (left.ids ++ right.ids)

/-- The value of the longest prefix of a key, among keys of `w` bits. -/
def lookup (bit : κ → ℕ → Bool) (w : ℕ) (k : κ) : Tree ι κ α → Option α
  | .empty => none
  | .node _ key len value left right =>
      if Agree bit len key k then
        if len = w then value
        else (if bit k len then right.lookup bit w k else left.lookup bit w k).or value
      else none

/-- A node with one child or none, on the side that a bit chooses. -/
def branch (id : ι) (key : κ) (len : ℕ) (value : Option α) (b : Bool) (child other : Tree ι κ α) :
    Tree ι κ α :=
  .node id key len value (if b then other else child) (if b then child else other)

/-- Set the value of the prefix of `k` with length `c`. A new node gets the label `x`; the label `y`
is for a branch between it and an older node. -/
def insert (bit : κ → ℕ → Bool) (common : κ → κ → ℕ) (k : κ) (c : ℕ) (v : α) (x y : ι) :
    Tree ι κ α → Tree ι κ α
  | .empty => .node x k c (some v) .empty .empty
  | .node id key len value left right =>
      if len ≤ c ∧ Agree bit len key k then
        if len = c then .node id key len (some v) left right
        else if bit k len then
          .node id key len value left (right.insert bit common k c v x y)
        else .node id key len value (left.insert bit common k c v x y) right
      else
        let down : Tree ι κ α := .node id key len value left right
        let m := min c (common key k)
        if m = c then branch x k c (some v) (bit key c) down .empty
        else branch y k m none (bit k m) (.node x k c (some v) .empty .empty) down

/-- The label and the key of the node that holds a prefix after its insertion. -/
def placed (bit : κ → ℕ → Bool) (k : κ) (c : ℕ) (x : ι) : Tree ι κ α → ι × κ
  | .empty => (x, k)
  | .node id key len _ left right =>
      if len ≤ c ∧ Agree bit len key k then
        if len = c then (id, key)
        else if bit k len then right.placed bit k c x
        else left.placed bit k c x
      else (x, k)

/-- The node for a prefix. -/
def find (bit : κ → ℕ → Bool) (k : κ) (c : ℕ) : Tree ι κ α → Option (ι × Option α)
  | .empty => none
  | .node id key len value left right =>
      if len ≤ c ∧ Agree bit len key k then
        if len = c then some (id, value)
        else if bit k len then right.find bit k c
        else left.find bit k c
      else none

/-- A node, unless it has no value and does not branch. -/
def join (id : ι) (key : κ) (len : ℕ) : Option α → Tree ι κ α → Tree ι κ α → Tree ι κ α
  | none, .empty, right => right
  | none, left, .empty => left
  | value, left, right => .node id key len value left right

/-- Clear the value of the node with label `x`. -/
def remove [DecidableEq ι] (x : ι) : Tree ι κ α → Tree ι κ α
  | .empty => .empty
  | .node id key len value left right =>
      join id key len (if id = x then none else value) (left.remove x) (right.remove x)

/-- Every node is at least `c` long, its first `c` bits are those of `p`, a node without a value has
two children, and the children of a node extend its prefix by one bit and its opposite. -/
def Fits (bit : κ → ℕ → Bool) (w : ℕ) : ℕ → (ℕ → Bool) → Tree ι κ α → Prop
  | _, _, .empty => True
  | c, p, .node _ key len value left right =>
      (c ≤ len ∧ len ≤ w ∧ ∀ i < c, bit key i = p i) ∧
      (value = none → left ≠ .empty ∧ right ≠ .empty) ∧
      Fits bit w (len + 1) (Function.update (bit key) len false) left ∧
      Fits bit w (len + 1) (Function.update (bit key) len true) right

variable {bit : κ → ℕ → Bool} {w c : ℕ} {p : ℕ → Bool} {t left right : Tree ι κ α} {id : ι}
  {key k : κ} {len : ℕ} {value : Option α} {e : Entry ι κ α}

@[simp] theorem entries_empty : (empty : Tree ι κ α).entries = [] := rfl

@[simp] theorem ids_empty : (empty : Tree ι κ α).ids = [] := rfl

theorem mem_entries_node :
    e ∈ (node id key len value left right).entries ↔
      (e.id = id ∧ e.key = key ∧ e.len = len ∧ value = some e.value) ∨ e ∈ left.entries ∨
        e ∈ right.entries := by
  cases e
  cases value with
  | none => simp [entries]
  | some v =>
    simp only [entries, Option.toList_some, List.map_cons, List.map_nil, List.mem_append,
      List.mem_singleton, Entry.mk.injEq, Option.some.injEq, eq_comm (a := v)]

theorem mem_ids_node {x : ι} :
    x ∈ (node id key len value left right).ids ↔ x = id ∨ x ∈ left.ids ∨ x ∈ right.ids := by
  simp [ids]

theorem mem_ids_of_mem_entries (h : e ∈ t.entries) : e.id ∈ t.ids := by
  induction t with
  | empty => cases h
  | node id key len value left right ihl ihr =>
    rw [mem_ids_node]
    rcases mem_entries_node.mp h with ⟨hid, -⟩ | hleft | hright
    · exact .inl hid
    · exact .inr (.inl (ihl hleft))
    · exact .inr (.inr (ihr hright))

/-! ## Trees that fit -/

namespace Fits

/-- A condition on fewer bits is weaker. -/
theorem weaken {c' : ℕ} {p' : ℕ → Bool} (h : Fits bit w c' p' t) (hc : c ≤ c')
    (hp : ∀ i < c, p' i = p i) : Fits bit w c p t := by
  cases t with
  | empty => trivial
  | node id key len value left right =>
    obtain ⟨⟨hlen, hw, hkey⟩, hrest⟩ := h
    refine ⟨⟨by omega, hw, ?_⟩, hrest⟩
    intro i hi
    rw [hkey i (by omega), hp i hi]

/-- What is longer than a key is empty. -/
theorem eq_empty (h : Fits bit w (w + 1) p t) : t = .empty := by
  cases t with
  | empty => rfl
  | node id key len value left right =>
    obtain ⟨⟨hlen, hw, -⟩, -⟩ := h
    omega

theorem child_weaken {b : Bool} (hc : c ≤ len) (hkey : ∀ i < c, bit key i = p i)
    (h : Fits bit w (len + 1) (Function.update (bit key) len b) t) : Fits bit w c p t := by
  apply h.weaken (by omega)
  intro i hi
  rw [Function.update_of_ne (by omega), hkey i hi]

/-- The entries of a tree obey its bound. -/
theorem of_mem (h : Fits bit w c p t) (he : e ∈ t.entries) :
    c ≤ e.len ∧ e.len ≤ w ∧ ∀ i < c, bit e.key i = p i := by
  induction t generalizing c p with
  | empty => cases he
  | node id key len value left right ihl ihr =>
    obtain ⟨⟨hlen, hw, hkey⟩, -, hleft, hright⟩ := h
    rcases mem_entries_node.mp he with ⟨-, rfl, rfl, -⟩ | hmem | hmem
    · exact ⟨hlen, hw, hkey⟩
    · exact ihl (hleft.child_weaken hlen hkey) hmem
    · exact ihr (hright.child_weaken hlen hkey) hmem

/-- An entry below a node extends the prefix of the node, by the bit of its side. -/
theorem of_mem_child {b : Bool} (h : Fits bit w (len + 1) (Function.update (bit key) len b) t)
    (he : e ∈ t.entries) : len < e.len ∧ Agree bit len e.key key ∧ bit e.key len = b := by
  obtain ⟨hlen, -, hkey⟩ := h.of_mem he
  refine ⟨hlen, ?_, ?_⟩
  · intro i hi
    rw [hkey i (by omega), Function.update_of_ne (by omega)]
  · rw [hkey len (by omega), Function.update_self]

end Fits

/-! ## Lookup -/

/-- Below a node that is not for a prefix of the key, nothing is. -/
theorem not_matches_child {b : Bool}
    (h : Fits bit w (len + 1) (Function.update (bit key) len b) t)
    (hkey : ¬ Agree bit len key k) (he : e ∈ t.entries) : ¬ e.Matches bit k := by
  intro hmatch
  obtain ⟨hlen, hagree, -⟩ := h.of_mem_child he
  apply hkey
  intro i hi
  rw [← hagree i hi, hmatch i (by omega)]

/-- On the side that the key does not take, nothing is for a prefix of it. -/
theorem not_matches_other {b : Bool}
    (h : Fits bit w (len + 1) (Function.update (bit key) len b) t) (hb : bit k len ≠ b)
    (he : e ∈ t.entries) : ¬ e.Matches bit k := by
  intro hmatch
  obtain ⟨hlen, -, hbit⟩ := h.of_mem_child he
  exact hb (by rw [← hmatch len hlen, hbit])

/-- What a lookup says about a set of entries: no entry is for a prefix of the key, or the value is
that of a longest one. -/
def LongestMatch (bit : κ → ℕ → Bool) (k : κ) (es : List (Entry ι κ α)) : Option α → Prop
  | none => ∀ e ∈ es, ¬ e.Matches bit k
  | some v => ∃ e ∈ es, e.Matches bit k ∧ e.value = v ∧ ∀ e' ∈ es, e'.Matches bit k → e'.len ≤ e.len

theorem longestMatch_node_of_child {b : Bool} (child other : Tree ι κ α)
    (hchild : Fits bit w (len + 1) (Function.update (bit key) len b) child)
    (hother : ∀ e ∈ other.entries, ¬ e.Matches bit k) (hkey : Agree bit len key k)
    {found : Option α} (hfound : LongestMatch bit k child.entries found)
    (hmem : ∀ e, e ∈ (node id key len value left right).entries ↔
      (e.id = id ∧ e.key = key ∧ e.len = len ∧ value = some e.value) ∨ e ∈ child.entries ∨
        e ∈ other.entries) :
    LongestMatch bit k (node id key len value left right).entries (found.or value) := by
  cases found with
  | some v =>
    obtain ⟨e, he, hmatch, hv, hlongest⟩ := hfound
    refine ⟨e, (hmem e).mpr (.inr (.inl he)), hmatch, hv, ?_⟩
    intro e' he' hmatch'
    rcases (hmem e').mp he' with ⟨-, -, hlen, -⟩ | hin | hin
    · have := (hchild.of_mem_child he).1
      omega
    · exact hlongest e' hin hmatch'
    · exact absurd hmatch' (hother e' hin)
  | none =>
    cases value with
    | none =>
      intro e he
      rcases (hmem e).mp he with ⟨-, -, -, hnone⟩ | hin | hin
      · cases hnone
      · exact hfound e hin
      · exact hother e hin
    | some v =>
      refine ⟨⟨id, key, len, v⟩, (hmem _).mpr (.inl ⟨rfl, rfl, rfl, rfl⟩), hkey, rfl, ?_⟩
      intro e' he' hmatch'
      rcases (hmem e').mp he' with ⟨-, -, hlen, -⟩ | hin | hin
      · exact hlen.le
      · exact absurd hmatch' (hfound e' hin)
      · exact absurd hmatch' (hother e' hin)

/-- Lookup finds the longest prefix. -/
theorem lookup_longestMatch (h : Fits bit w c p t) :
    LongestMatch bit k t.entries (t.lookup bit w k) := by
  induction t generalizing c p with
  | empty => exact fun e he => absurd he List.not_mem_nil
  | node id key len value left right ihl ihr =>
    obtain ⟨⟨-, hw, -⟩, -, hleft, hright⟩ := h
    rw [lookup]
    split
    · next hkey =>
      split
      · next hlen =>
        subst hlen
        obtain rfl := hleft.eq_empty
        obtain rfl := hright.eq_empty
        have hnone : LongestMatch bit k (empty : Tree ι κ α).entries none :=
          fun e he => absurd he List.not_mem_nil
        simpa using longestMatch_node_of_child .empty .empty hleft hnone hkey hnone
          (fun e => mem_entries_node)
      · split
        · next hbit =>
          apply longestMatch_node_of_child right left hright _ hkey (ihr hright)
          · exact fun e => mem_entries_node.trans (or_congr_right or_comm)
          · exact fun e he => not_matches_other hleft (by simp [hbit]) he
        · next hbit =>
          apply longestMatch_node_of_child left right hleft _ hkey (ihl hleft)
          · exact fun e => mem_entries_node
          · exact fun e he => not_matches_other hright (by simpa using hbit) he
    · next hkey =>
      intro e he
      rcases mem_entries_node.mp he with ⟨-, rfl, rfl, -⟩ | hmem | hmem
      · exact hkey
      · exact not_matches_child hleft hkey hmem
      · exact not_matches_child hright hkey hmem

/-- A prefix has one entry at most. -/
theorem Fits.entry_unique {e' : Entry ι κ α} (h : Fits bit w c p t) (he : e ∈ t.entries)
    (he' : e' ∈ t.entries) (hlen : e.len = e'.len) (hagree : Agree bit e.len e.key e'.key) :
    e = e' := by
  induction t generalizing c p with
  | empty => cases he
  | node id key len value left right ihl ihr =>
    obtain ⟨-, -, hleft, hright⟩ := h
    rcases mem_entries_node.mp he with ⟨h1, h2, h3, h4⟩ | hmem | hmem <;>
      rcases mem_entries_node.mp he' with ⟨h1', h2', h3', h4'⟩ | hmem' | hmem'
    · cases e
      cases e'
      simp_all
    · have := (hleft.of_mem_child hmem').1
      omega
    · have := (hright.of_mem_child hmem').1
      omega
    · have := (hleft.of_mem_child hmem).1
      omega
    · exact ihl hleft hmem hmem'
    · exact absurd hagree (not_matches_other hleft (by simp [(hright.of_mem_child hmem').2.2]) hmem)
    · have := (hright.of_mem_child hmem).1
      omega
    · exact absurd hagree (not_matches_other hright (by simp [(hleft.of_mem_child hmem').2.2]) hmem)
    · exact ihr hright hmem hmem'

/-! ## Insertion -/

section Insert

variable {common : κ → κ → ℕ} {v : α} {x y : ι}

theorem node_eq_branch (b : Bool) :
    node id key len value left right =
      branch id key len value b (if b then right else left) (if b then left else right) := by
  cases b <;> rfl

/-- The path of a prefix through a shorter one. -/
theorem insert_branch {child other : Tree ι κ α} (hpath : len ≤ c ∧ Agree bit len key k)
    (hne : len ≠ c) :
    (branch id key len value (bit k len) child other).insert bit common k c v x y =
      branch id key len value (bit k len) (child.insert bit common k c v x y) other := by
  cases hbit : bit k len with
  | false => simp [branch, Tree.insert, hpath, hne, hbit]
  | true => simp [branch, Tree.insert, hpath, hne, hbit]

theorem placed_branch {child other : Tree ι κ α} (hpath : len ≤ c ∧ Agree bit len key k)
    (hne : len ≠ c) :
    (branch id key len value (bit k len) child other).placed bit k c x =
      child.placed bit k c x := by
  cases hbit : bit k len with
  | false => simp [branch, placed, hpath, hne, hbit]
  | true => simp [branch, placed, hpath, hne, hbit]

theorem mem_entries_branch {b : Bool} {child other : Tree ι κ α} :
    e ∈ (branch id key len value b child other).entries ↔
      (e.id = id ∧ e.key = key ∧ e.len = len ∧ value = some e.value) ∨ e ∈ child.entries ∨
        e ∈ other.entries := by
  cases b with
  | false => exact mem_entries_node
  | true => exact mem_entries_node.trans (or_congr_right or_comm)

theorem fits_branch {b : Bool} {child other : Tree ι κ α}
    (hlen : c ≤ len ∧ len ≤ w ∧ ∀ i < c, bit key i = p i)
    (hvalue : value = none → child ≠ .empty ∧ other ≠ .empty)
    (hchild : Fits bit w (len + 1) (Function.update (bit key) len b) child)
    (hother : Fits bit w (len + 1) (Function.update (bit key) len (!b)) other) :
    Fits bit w c p (branch id key len value b child other) := by
  cases b with
  | false => exact ⟨hlen, hvalue, hchild, hother⟩
  | true => exact ⟨hlen, fun h => (hvalue h).symm, hother, hchild⟩

/-- A tree that fits where its root is, fits below a shorter prefix of the root. -/
theorem Fits.below {m : ℕ} {k : κ} (h : Fits bit w c p (node id key len value left right))
    (hm : m < len) (hagree : Agree bit m key k) :
    Fits bit w (m + 1) (Function.update (bit k) m (bit key m))
      (node id key len value left right) := by
  obtain ⟨⟨-, hw, -⟩, hrest⟩ := h
  refine ⟨⟨hm, hw, ?_⟩, hrest⟩
  intro i hi
  by_cases him : i = m
  · subst him
    simp
  · rw [Function.update_of_ne him, hagree i (by omega)]

/-- Below a node that is not on the path of a prefix, there is no entry for it. -/
theorem not_hit_of_not_on_path (h : Fits bit w c p (node id key len value left right))
    {n : ℕ} (hpath : ¬ (len ≤ n ∧ Agree bit len key k))
    (he : e ∈ (node id key len value left right).entries) :
    ¬ (e.len = n ∧ Agree bit n e.key k) := by
  rintro ⟨rfl, hagree⟩
  obtain ⟨-, -, hleft, hright⟩ := h
  have hchild (h : len < e.len ∧ Agree bit len e.key key) : False :=
    hpath ⟨h.1.le, fun i hi => by rw [← h.2 i hi, hagree i (by omega)]⟩
  rcases mem_entries_node.mp he with ⟨-, rfl, rfl, -⟩ | hmem | hmem
  · exact hpath ⟨le_rfl, hagree⟩
  · exact hchild ((hleft.of_mem_child hmem).imp_right And.left)
  · exact hchild ((hright.of_mem_child hmem).imp_right And.left)

/-- The entries after an insertion: the new one, and the old ones but the one for the same
prefix. -/
theorem mem_entries_insert {c₀ : ℕ} (h : Fits bit w c₀ p t) (hc : c ≤ w) :
    e ∈ (t.insert bit common k c v x y).entries ↔
      e = ⟨(t.placed bit k c x).1, (t.placed bit k c x).2, c, v⟩ ∨
        e ∈ t.entries ∧ ¬ (e.len = c ∧ Agree bit c e.key k) := by
  induction t generalizing c₀ p with
  | empty =>
    cases e
    simp [Tree.insert, placed, mem_entries_node, eq_comm (a := v)]
  | node id key len value left right ihl ihr =>
    have hfits := h
    obtain ⟨hlen, hvalue, hleft, hright⟩ := h
    rw [Tree.insert, placed]
    split
    · next hpath =>
      split
      · next hc =>
        subst hc
        have hl (he : e ∈ left.entries) := (hleft.of_mem_child he).1
        have hr (he : e ∈ right.entries) := (hright.of_mem_child he).1
        cases e with | mk id' key' len' v' =>
        simp only [mem_entries_node, Entry.mk.injEq, Option.some.injEq] at hl hr ⊢
        have := hpath.2
        constructor
        · rintro (⟨rfl, rfl, rfl, rfl⟩ | he | he)
          · exact .inl ⟨rfl, rfl, rfl, rfl⟩
          · exact .inr ⟨.inr (.inl he), fun hhit => by have := hl he; omega⟩
          · exact .inr ⟨.inr (.inr he), fun hhit => by have := hr he; omega⟩
        · rintro (⟨rfl, rfl, rfl, rfl⟩ | ⟨⟨rfl, rfl, rfl, -⟩ | he | he, hmiss⟩)
          · exact .inl ⟨rfl, rfl, rfl, rfl⟩
          · exact absurd ⟨rfl, hpath.2⟩ hmiss
          · exact .inr (.inl he)
          · exact .inr (.inr he)
      · next hne =>
        have hlt : len < c := by omega
        have hnode : e.len = len → ¬ (e.len = c ∧ Agree bit c e.key k) := fun h h' => by omega
        split
        · next hbit =>
          have hmiss (he : e ∈ left.entries) : ¬ (e.len = c ∧ Agree bit c e.key k) :=
            fun hhit => not_matches_other hleft (by simp [hbit]) he (hhit.1 ▸ hhit.2)
          simp only [mem_entries_node, ihr hright]
          constructor
          · rintro (hself | he | hnew | ⟨he, hother⟩)
            · exact .inr ⟨.inl hself, hnode hself.2.2.1⟩
            · exact .inr ⟨.inr (.inl he), hmiss he⟩
            · exact .inl hnew
            · exact .inr ⟨.inr (.inr he), hother⟩
          · rintro (hnew | ⟨hself | he | he, hother⟩)
            · exact .inr (.inr (.inl hnew))
            · exact .inl hself
            · exact .inr (.inl he)
            · exact .inr (.inr (.inr ⟨he, hother⟩))
        · next hbit =>
          have hmiss (he : e ∈ right.entries) : ¬ (e.len = c ∧ Agree bit c e.key k) :=
            fun hhit => not_matches_other hright (by simpa using hbit) he (hhit.1 ▸ hhit.2)
          simp only [mem_entries_node, ihl hleft]
          constructor
          · rintro (hself | (hnew | ⟨he, hother⟩) | he)
            · exact .inr ⟨.inl hself, hnode hself.2.2.1⟩
            · exact .inl hnew
            · exact .inr ⟨.inr (.inl he), hother⟩
            · exact .inr ⟨.inr (.inr he), hmiss he⟩
          · rintro (hnew | ⟨hself | he | he, hother⟩)
            · exact .inr (.inl (.inl hnew))
            · exact .inl hself
            · exact .inr (.inl (.inr ⟨he, hother⟩))
            · exact .inr (.inr he)
    · next hpath =>
      have hkept : (e ∈ (node id key len value left right).entries ∧
          ¬ (e.len = c ∧ Agree bit c e.key k)) ↔
            e ∈ (node id key len value left right).entries :=
        and_iff_left_of_imp (not_hit_of_not_on_path hfits hpath)
      have hnew : (e.id = x ∧ e.key = k ∧ e.len = c ∧ some v = some e.value) ↔
          e = ⟨x, k, c, v⟩ := by
        cases e
        simp [eq_comm (a := v)]
      dsimp only
      rw [hkept]
      split
      · rw [mem_entries_branch, hnew]
        simp only [entries_empty, List.not_mem_nil, or_false]
      · rw [mem_entries_branch]
        nth_rewrite 1 [mem_entries_node]
        rw [hnew]
        simp only [entries_empty, List.not_mem_nil, or_false, reduceCtorEq, and_false, false_or]

theorem placed_mem (bit : κ → ℕ → Bool) (k : κ) (c : ℕ) (x : ι) (t : Tree ι κ α) :
    (t.placed bit k c x).1 = x ∨ (t.placed bit k c x).1 ∈ t.ids := by
  induction t with
  | empty => exact .inl rfl
  | node id key len value left right ihl ihr =>
    rw [placed]
    split
    · split
      · exact .inr (mem_ids_node.mpr (.inl rfl))
      · split
        · exact ihr.imp_right fun h => mem_ids_node.mpr (.inr (.inr h))
        · exact ihl.imp_right fun h => mem_ids_node.mpr (.inr (.inl h))
    · exact .inl rfl

theorem agree_placed (bit : κ → ℕ → Bool) (k : κ) (c : ℕ) (x : ι) (t : Tree ι κ α) :
    Agree bit c (t.placed bit k c x).2 k := by
  induction t with
  | empty => exact fun _ _ => rfl
  | node id key len value left right ihl ihr =>
    rw [placed]
    split
    · next hpath =>
      split
      · next hlen => exact hlen ▸ hpath.2
      · split
        · exact ihr
        · exact ihl
    · exact fun _ _ => rfl

theorem ne_placed {z : ι} (hz : z ≠ x) (hids : z ∉ t.ids) : z ≠ (t.placed bit k c x).1 := by
  intro h
  rcases placed_mem bit k c x t with hx | hmem
  · exact hz (h.trans hx)
  · exact hids (h ▸ hmem)

theorem nodup_ids_node :
    (node id key len value left right).ids.Nodup ↔
      id ∉ left.ids ∧ id ∉ right.ids ∧ left.ids.Nodup ∧ right.ids.Nodup ∧
        ∀ z ∈ left.ids, z ∉ right.ids := by
  simp only [ids, List.nodup_cons, List.mem_append, not_or, List.nodup_append', and_assoc,
    List.Disjoint]

/-- The node that takes a prefix is the one that holds it. -/
theorem id_eq_placed_iff {c₀ : ℕ} (h : Fits bit w c₀ p t) (hnodup : t.ids.Nodup) (hx : x ∉ t.ids)
    (he : e ∈ t.entries) :
    e.id = (t.placed bit k c x).1 ↔ e.len = c ∧ Agree bit c e.key k := by
  induction t generalizing c₀ p with
  | empty => cases he
  | node id key len value left right ihl ihr =>
    have hfits := h
    have hxid : e.id ≠ x := ne_of_mem_of_not_mem (mem_ids_of_mem_entries he) hx
    obtain ⟨-, -, hleft, hright⟩ := h
    obtain ⟨hidl, hidr, hnl, hnr, hdisj⟩ := nodup_ids_node.mp hnodup
    rw [mem_ids_node, not_or, not_or] at hx
    rw [placed]
    split
    · next hpath =>
      split
      · next hlen =>
        subst hlen
        rcases mem_entries_node.mp he with ⟨hid, rfl, hself, -⟩ | hmem | hmem
        · exact iff_of_true hid ⟨hself, hpath.2⟩
        · have := (hleft.of_mem_child hmem).1
          exact iff_of_false (ne_of_mem_of_not_mem (mem_ids_of_mem_entries hmem) hidl) (by omega)
        · have := (hright.of_mem_child hmem).1
          exact iff_of_false (ne_of_mem_of_not_mem (mem_ids_of_mem_entries hmem) hidr) (by omega)
      · next hne =>
        split
        · next hbit =>
          rcases mem_entries_node.mp he with ⟨hid, -, hself, -⟩ | hmem | hmem
          · exact iff_of_false (ne_placed hxid (hid ▸ hidr)) (by omega)
          · apply iff_of_false (ne_placed hxid (hdisj _ (mem_ids_of_mem_entries hmem)))
            rintro ⟨rfl, hagree⟩
            exact not_matches_other hleft (by simp [hbit]) hmem hagree
          · exact ihr hright hnr hx.2.2 hmem
        · next hbit =>
          rcases mem_entries_node.mp he with ⟨hid, -, hself, -⟩ | hmem | hmem
          · exact iff_of_false (ne_placed hxid (hid ▸ hidl)) (by omega)
          · exact ihl hleft hnl hx.2.1 hmem
          · apply iff_of_false (ne_placed hxid fun h => hdisj _ h (mem_ids_of_mem_entries hmem))
            rintro ⟨rfl, hagree⟩
            exact not_matches_other hright (by simpa using hbit) hmem hagree
    · next hpath => exact iff_of_false hxid (not_hit_of_not_on_path hfits hpath he)

theorem mem_ids_branch {z : ι} {b : Bool} {child other : Tree ι κ α} :
    z ∈ (branch id key len value b child other).ids ↔ z = id ∨ z ∈ child.ids ∨ z ∈ other.ids := by
  cases b with
  | false => exact mem_ids_node
  | true => exact mem_ids_node.trans (or_congr_right or_comm)

/-- An insertion adds at most the two labels that it is given. -/
theorem mem_ids_insert {z : ι} (hz : z ∈ (t.insert bit common k c v x y).ids) :
    z = x ∨ z = y ∨ z ∈ t.ids := by
  induction t with
  | empty => exact .inl (by simpa [Tree.insert, ids] using hz)
  | node id key len value left right ihl ihr =>
    simp only [mem_ids_node]
    rw [Tree.insert] at hz
    split at hz
    · split at hz
      · exact .inr (.inr (mem_ids_node.mp hz))
      · split at hz
        · rcases mem_ids_node.mp hz with hself | hleft | hright
          · exact .inr (.inr (.inl hself))
          · exact .inr (.inr (.inr (.inl hleft)))
          · exact (ihr hright).imp_right (Or.imp_right fun h => .inr (.inr h))
        · rcases mem_ids_node.mp hz with hself | hleft | hright
          · exact .inr (.inr (.inl hself))
          · exact (ihl hleft).imp_right (Or.imp_right fun h => .inr (.inl h))
          · exact .inr (.inr (.inr (.inr hright)))
    · dsimp only at hz
      split at hz
      · rcases mem_ids_branch.mp hz with hself | hdown | hnone
        · exact .inl hself
        · exact .inr (.inr (mem_ids_node.mp hdown))
        · cases hnone
      · rcases mem_ids_branch.mp hz with hself | hnew | hdown
        · exact .inr (.inl hself)
        · exact .inl (by simpa [ids] using hnew)
        · exact .inr (.inr (mem_ids_node.mp hdown))

theorem nodup_ids_branch {b : Bool} {child other : Tree ι κ α} :
    (branch id key len value b child other).ids.Nodup ↔
      id ∉ child.ids ∧ id ∉ other.ids ∧ child.ids.Nodup ∧ other.ids.Nodup ∧
        ∀ z ∈ child.ids, z ∉ other.ids := by
  cases b with
  | false => exact nodup_ids_node
  | true =>
    refine nodup_ids_node.trans ?_
    simp only [if_true]
    constructor
    · rintro ⟨h1, h2, h3, h4, h5⟩
      exact ⟨h2, h1, h4, h3, fun z hz hz' => h5 z hz' hz⟩
    · rintro ⟨h1, h2, h3, h4, h5⟩
      exact ⟨h2, h1, h4, h3, fun z hz hz' => h5 z hz' hz⟩

theorem nodup_ids_insert (h : t.ids.Nodup) (hx : x ∉ t.ids) (hy : y ∉ t.ids) (hxy : x ≠ y) :
    (t.insert bit common k c v x y).ids.Nodup := by
  induction t with
  | empty => simp [Tree.insert, ids]
  | node id key len value left right ihl ihr =>
    obtain ⟨hidl, hidr, hleft, hright, hdisj⟩ := nodup_ids_node.mp h
    have hx' := hx
    have hy' := hy
    rw [mem_ids_node, not_or, not_or] at hx hy
    rw [Tree.insert]
    split
    · split
      · exact h
      · split
        · refine nodup_ids_node.mpr ⟨hidl, ?_, hleft, ihr hright hx.2.2 hy.2.2, ?_⟩
          · intro hmem
            rcases mem_ids_insert hmem with rfl | rfl | hold
            · exact hx.1 rfl
            · exact hy.1 rfl
            · exact hidr hold
          · intro z hz hmem
            rcases mem_ids_insert hmem with rfl | rfl | hold
            · exact hx.2.1 hz
            · exact hy.2.1 hz
            · exact hdisj z hz hold
        · refine nodup_ids_node.mpr ⟨?_, hidr, ihl hleft hx.2.1 hy.2.1, hright, ?_⟩
          · intro hmem
            rcases mem_ids_insert hmem with rfl | rfl | hold
            · exact hx.1 rfl
            · exact hy.1 rfl
            · exact hidl hold
          · intro z hmem hz
            rcases mem_ids_insert hmem with rfl | rfl | hold
            · exact hx.2.2 hz
            · exact hy.2.2 hz
            · exact hdisj z hold hz
    · dsimp only
      split
      · exact nodup_ids_branch.mpr ⟨hx', by simp, h, by simp, by simp⟩
      · refine nodup_ids_branch.mpr ⟨?_, hy', ?_, h, ?_⟩
        · simpa [ids] using hxy.symm
        · simp [ids]
        · simpa [ids] using hx'

variable (hcommon : ∀ a b n, n ≤ w → (n ≤ common a b ↔ Agree bit n a b))
include hcommon

/-- Where the node is not on the path of the new prefix, the common part is a proper part of the
node's prefix, and it ends where the two part unless the new prefix ends there. -/
theorem common_of_not_on_path (hw : len ≤ w) (hc : c ≤ w) (h : ¬ (len ≤ c ∧ Agree bit len key k)) :
    min c (common key k) < len ∧ Agree bit (min c (common key k)) key k ∧
      (min c (common key k) ≠ c →
        bit key (min c (common key k)) ≠ bit k (min c (common key k))) := by
  have hm : min c (common key k) ≤ w := by omega
  have hagree : Agree bit (min c (common key k)) key k :=
    (hcommon _ _ _ hm).mp (Nat.min_le_right _ _)
  refine ⟨?_, hagree, ?_⟩
  · by_contra hlen
    refine h ⟨by omega, ?_⟩
    exact (hcommon _ _ _ hw).mp (by omega)
  · intro hne hbit
    have hless : common key k < c := by omega
    rw [Nat.min_eq_right hless.le] at hagree hbit
    have : common key k + 1 ≤ common key k := by
      rw [hcommon _ _ _ (by omega)]
      intro i hi
      by_cases hi' : i = common key k
      · rw [hi', hbit]
      · exact hagree i (by omega)
    omega

theorem Fits.insert {c₀ : ℕ} (h : Fits bit w c₀ p t) (hc₀ : c₀ ≤ c) (hc : c ≤ w)
    (hk : ∀ i < c₀, bit k i = p i) : Fits bit w c₀ p (t.insert bit common k c v x y) := by
  induction t generalizing c₀ p with
  | empty => exact ⟨⟨hc₀, hc, hk⟩, by simp, trivial, trivial⟩
  | node id key len value left right ihl ihr =>
    have hfits := h
    obtain ⟨hlen, hvalue, hleft, hright⟩ := h
    have hne (b : Tree ι κ α) : b.insert bit common k c v x y ≠ .empty := by
      cases b with
      | empty => simp [Tree.insert]
      | node =>
        rw [Tree.insert]
        simp only [branch]
        repeat' split
        all_goals simp
    rw [Tree.insert]
    split
    · next hpath =>
      have hbelow {b : Bool} (hb : bit k len = b) :
          ∀ i < len + 1, bit k i = Function.update (bit key) len b i := by
        intro i hi
        by_cases hilen : i = len
        · rw [hilen, Function.update_self, hb]
        · rw [Function.update_of_ne hilen, hpath.2 i (by omega)]
      split
      · exact ⟨hlen, by simp, hleft, hright⟩
      · split
        · next hbit =>
          exact ⟨hlen, fun hnone => ⟨(hvalue hnone).1, hne right⟩, hleft,
            ihr hright (by omega) (hbelow hbit)⟩
        · next hbit =>
          exact ⟨hlen, fun hnone => ⟨hne left, (hvalue hnone).2⟩,
            ihl hleft (by omega) (hbelow (by simpa using hbit)), hright⟩
    · next hpath =>
      obtain ⟨hm, hagree, hpart⟩ := common_of_not_on_path hcommon hlen.2.1 hc hpath
      have hm₀ : c₀ ≤ min c (common key k) := by
        apply le_min hc₀
        rw [hcommon _ _ _ (by omega)]
        intro i hi
        rw [hlen.2.2 i hi, hk i hi]
      dsimp only
      split
      · next hmc =>
        rw [hmc] at hm hagree
        apply fits_branch ⟨hc₀, hc, hk⟩ (by simp) (hfits.below hm hagree)
        trivial
      · next hmc =>
        apply fits_branch ⟨hm₀, by omega, hk⟩ (by simp)
        · refine ⟨⟨by omega, hc, ?_⟩, by simp, trivial, trivial⟩
          intro i hi
          simp
        · have hflip : (!bit k (min c (common key k))) = bit key (min c (common key k)) := by
            have := hpart hmc
            revert this
            cases bit k (min c (common key k)) <;> cases bit key (min c (common key k)) <;> simp
          rw [hflip]
          exact hfits.below hm hagree

end Insert

/-! ## Removal -/

section Remove

/-- The node for a prefix holds the entry for it. -/
theorem find_eq_some_iff {n : ℕ} {x : ι} {v : α} (h : Fits bit w c p t) :
    t.find bit k n = some (x, some v) ↔
      ∃ e ∈ t.entries, e.id = x ∧ e.len = n ∧ Agree bit n e.key k ∧ e.value = v := by
  induction t generalizing c p with
  | empty => simp [find]
  | node id key len value left right ihl ihr =>
    have hfits := h
    obtain ⟨-, -, hleft, hright⟩ := h
    rw [find]
    split
    · next hpath =>
      split
      · next hlen =>
        subst hlen
        constructor
        · intro hfind
          obtain ⟨rfl, rfl⟩ : id = x ∧ value = some v := by simpa using hfind
          exact ⟨⟨id, key, len, v⟩, mem_entries_node.mpr (.inl ⟨rfl, rfl, rfl, rfl⟩), rfl, rfl,
            hpath.2, rfl⟩
        · rintro ⟨e, he, rfl, hlen, -, rfl⟩
          rcases mem_entries_node.mp he with ⟨hid, -, -, hvalue⟩ | hmem | hmem
          · rw [hid, hvalue]
          · have := (hleft.of_mem_child hmem).1
            omega
          · have := (hright.of_mem_child hmem).1
            omega
      · next hne =>
        -- The entry cannot be here or on the other side.
        have hside {b : Bool} {other : Tree ι κ α} (hb : bit k len ≠ b)
            (hother : Fits bit w (len + 1) (Function.update (bit key) len b) other)
            {e : Entry ι κ α} (he : e ∈ other.entries) (hlen : e.len = n) : ¬ Agree bit n e.key k :=
          fun hagree =>
            not_matches_other hother hb he (show Agree bit e.len e.key k from hlen ▸ hagree)
        split
        · next hbit =>
          rw [ihr hright]
          constructor
          · rintro ⟨e, he, hrest⟩
            exact ⟨e, mem_entries_node.mpr (.inr (.inr he)), hrest⟩
          · rintro ⟨e, he, hid, hlen, hagree, hv⟩
            rcases mem_entries_node.mp he with ⟨-, -, hself, -⟩ | hmem | hmem
            · omega
            · exact absurd hagree (hside (by simp [hbit]) hleft hmem hlen)
            · exact ⟨e, hmem, hid, hlen, hagree, hv⟩
        · next hbit =>
          rw [ihl hleft]
          constructor
          · rintro ⟨e, he, hrest⟩
            exact ⟨e, mem_entries_node.mpr (.inr (.inl he)), hrest⟩
          · rintro ⟨e, he, hid, hlen, hagree, hv⟩
            rcases mem_entries_node.mp he with ⟨-, -, hself, -⟩ | hmem | hmem
            · omega
            · exact ⟨e, hmem, hid, hlen, hagree, hv⟩
            · exact absurd hagree (hside (by simpa using hbit) hright hmem hlen)
    · next hpath =>
      constructor
      · intro hfind
        cases hfind
      · rintro ⟨e, he, -, hlen, hagree, -⟩
        exact absurd ⟨hlen, hagree⟩ (not_hit_of_not_on_path hfits hpath he)

/-- A label has one entry at most. -/
theorem entry_eq_of_id_eq {e' : Entry ι κ α} (hnodup : t.ids.Nodup) (he : e ∈ t.entries)
    (he' : e' ∈ t.entries) (hid : e.id = e'.id) : e = e' := by
  induction t with
  | empty => cases he
  | node id key len value left right ihl ihr =>
    obtain ⟨hidl, hidr, hleft, hright, hdisj⟩ := nodup_ids_node.mp hnodup
    rcases mem_entries_node.mp he with ⟨h1, h2, h3, h4⟩ | hmem | hmem <;>
      rcases mem_entries_node.mp he' with ⟨h1', h2', h3', h4'⟩ | hmem' | hmem'
    · cases e
      cases e'
      simp_all
    · exact absurd (mem_ids_of_mem_entries hmem') (by rw [← hid, h1]; exact hidl)
    · exact absurd (mem_ids_of_mem_entries hmem') (by rw [← hid, h1]; exact hidr)
    · exact absurd (mem_ids_of_mem_entries hmem) (by rw [hid, h1']; exact hidl)
    · exact ihl hleft hmem hmem'
    · exact absurd (hid ▸ mem_ids_of_mem_entries hmem') (hdisj _ (mem_ids_of_mem_entries hmem))
    · exact absurd (mem_ids_of_mem_entries hmem) (by rw [hid, h1']; exact hidr)
    · exact absurd (hid ▸ mem_ids_of_mem_entries hmem) (hdisj _ (mem_ids_of_mem_entries hmem'))
    · exact ihr hright hmem hmem'

theorem mem_ids_of_find {n : ℕ} {x : ι} (h : t.find bit k n = some (x, value)) : x ∈ t.ids := by
  induction t with
  | empty => cases h
  | node id key len value' left right ihl ihr =>
    rw [mem_ids_node]
    rw [find] at h
    split at h
    · split at h
      · exact .inl (congrArg Prod.fst (Option.some.inj h)).symm
      · split at h
        · exact .inr (.inr (ihr h))
        · exact .inr (.inl (ihl h))
    · cases h

theorem entries_join :
    (join id key len value left right).entries = (node id key len value left right).entries := by
  cases value with
  | some v => cases left <;> cases right <;> rfl
  | none => cases left <;> cases right <;> simp [join, entries]

theorem ids_join :
    (join id key len value left right).ids.Sublist (node id key len value left right).ids := by
  cases value with
  | some v => cases left <;> cases right <;> exact .refl _
  | none => cases left <;> cases right <;> simp [join, ids]

theorem Fits.join (hlen : c ≤ len ∧ len ≤ w ∧ ∀ i < c, bit key i = p i)
    (hleft : Fits bit w (len + 1) (Function.update (bit key) len false) left)
    (hright : Fits bit w (len + 1) (Function.update (bit key) len true) right) :
    Fits bit w c p (join id key len value left right) := by
  have hl : Fits bit w c p left := hleft.child_weaken hlen.1 hlen.2.2
  have hr : Fits bit w c p right := hright.child_weaken hlen.1 hlen.2.2
  cases value with
  | some v => cases left <;> cases right <;> exact ⟨hlen, by simp, hleft, hright⟩
  | none =>
    cases left with
    | empty => exact hr
    | node =>
      cases right with
      | empty => exact hl
      | node => exact ⟨hlen, by simp, hleft, hright⟩

theorem join_eq_node (h : value = none → left ≠ .empty ∧ right ≠ .empty) :
    join id key len value left right = .node id key len value left right := by
  cases value with
  | some v => cases left <;> cases right <;> rfl
  | none =>
    obtain ⟨hl, hr⟩ := h rfl
    cases left with
    | empty => exact absurd rfl hl
    | node =>
      cases right with
      | empty => exact absurd rfl hr
      | node => rfl

theorem join_empty (b : Bool) (t : Tree ι κ α) :
    join id key len none (if b then .empty else t) (if b then t else .empty) = t := by
  cases b <;> cases t <;> rfl

variable [DecidableEq ι] {x : ι}

theorem entries_remove (t : Tree ι κ α) (x : ι) :
    (t.remove x).entries = t.entries.filter fun e => e.id ≠ x := by
  induction t with
  | empty => rfl
  | node id key len value left right ihl ihr =>
    rw [remove, entries_join, entries, entries, List.filter_append, List.filter_append, ihl, ihr]
    congr 1
    by_cases hid : id = x
    · cases value <;> simp [hid]
    · cases value <;> simp [hid]

theorem ids_remove (t : Tree ι κ α) (x : ι) : (t.remove x).ids.Sublist t.ids := by
  induction t with
  | empty => exact .refl _
  | node id key len value left right ihl ihr =>
    exact ids_join.trans ((ihl.append ihr).cons_cons id)

theorem Fits.remove (h : Fits bit w c p t) : Fits bit w c p (t.remove x) := by
  induction t generalizing c p with
  | empty => trivial
  | node id key len value left right ihl ihr =>
    obtain ⟨hlen, -, hleft, hright⟩ := h
    exact Fits.join hlen (ihl hleft) (ihr hright)

/-- Removing a label that is not there changes nothing. -/
theorem Fits.remove_of_notMem (h : Fits bit w c p t) (hx : x ∉ t.ids) : t.remove x = t := by
  induction t generalizing c p with
  | empty => rfl
  | node id key len value left right ihl ihr =>
    obtain ⟨-, hvalue, hleft, hright⟩ := h
    rw [mem_ids_node, not_or, not_or] at hx
    rw [Tree.remove, ihl hleft hx.2.1, ihr hright hx.2.2, if_neg (Ne.symm hx.1)]
    exact join_eq_node hvalue

/-- Removal on one side of a node that stays. -/
theorem remove_branch {b : Bool} {child other : Tree ι κ α} (hid : id ≠ x)
    (hother : other.remove x = other)
    (hvalue : value = none → child.remove x ≠ .empty ∧ other ≠ .empty) :
    (branch id key len value b child other).remove x =
      branch id key len value b (child.remove x) other := by
  cases b with
  | false =>
    rw [branch, Tree.remove, if_neg hid]
    simp only [Bool.false_eq_true, if_false, hother]
    exact join_eq_node hvalue
  | true =>
    rw [branch, Tree.remove, if_neg hid]
    simp only [if_true, hother]
    exact join_eq_node fun h => (hvalue h).symm

/-- Only the last node of a tree leaves nothing behind. -/
theorem Fits.remove_eq_empty (h : Fits bit w c p (node id key len value left right))
    (hnodup : (node id key len value left right).ids.Nodup)
    (hempty : (node id key len value left right).remove x = .empty) :
    id = x ∧ left = .empty ∧ right = .empty := by
  obtain ⟨-, hvalue, hleft, hright⟩ := h
  obtain ⟨hidl, hidr, -, -, hdisj⟩ := nodup_ids_node.mp hnodup
  rw [Tree.remove] at hempty
  by_cases hid : id = x
  · subst hid
    rw [if_pos rfl, hleft.remove_of_notMem hidl, hright.remove_of_notMem hidr] at hempty
    cases left <;> cases right <;> simp_all [Tree.join]
  · rw [if_neg hid] at hempty
    cases value with
    | some v => cases hl : left.remove x <;> cases hr : right.remove x <;> simp_all [Tree.join]
    | none =>
      obtain ⟨hl, hr⟩ := hvalue rfl
      -- One side does not have the label and stays.
      by_cases hx : x ∈ left.ids
      · rw [hright.remove_of_notMem (hdisj x hx)] at hempty
        cases hl : left.remove x <;> cases right <;> simp_all [Tree.join]
      · rw [hleft.remove_of_notMem hx] at hempty
        cases left <;> cases hr : right.remove x <;> simp_all [Tree.join]

end Remove

end Tree

end PrefixTree
