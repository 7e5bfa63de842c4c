import WgTcp.Netlink.Conf
import WgTcp.Netlink.Reassembly

/-!
# Synchronizing a configuration

`sync_conf` turns a configuration file into a request that keeps the peers that
the file and the device have in common, so that their sessions go on. It sorts
the peers of both by their keys, asks for the removal of the peers that the file
does not have, and resets what the first section of a peer does not mention. The
request leaves what the file would leave on a device without peers.
-/

namespace WgTcp

namespace Tools

open AllowedIps Netlink Fragments WgDevice

/-! ## `sync_conf` -/

/-- `struct peer_origin`; for the pointer there is the place of the peer in its list, with the key
that it has there. -/
structure PeerOrigin where
  index : Nat
  publicKey : Key
  fromFile : Bool
deriving Repr, DecidableEq

def origins (fromFile : Bool) (peers : List Wgpeer) : List PeerOrigin :=
  peers.mapIdx fun i p => ⟨i, p.publicKey, fromFile⟩

/-- The peers that are prepended to the file, and the sections of the file. -/
structure SyncState where
  removals : List Wgpeer
  sections : List Wgpeer

/-- A section that does not mention what the runtime peer has set. -/
def resetBy (runtime s : Wgpeer) : Wgpeer :=
  let s :=
    if runtime.hasPresharedKey && !s.hasPresharedKey then
      { s with presharedKey := 0, hasPresharedKey := true }
    else s
  if runtime.persistentKeepaliveInterval != 0 && !s.hasPersistentKeepaliveInterval then
    { s with persistentKeepaliveInterval := 0, hasPersistentKeepaliveInterval := true }
  else s

def removal (key : Key) : Wgpeer := { Wgpeer.zero with removeMe := true, publicKey := key }

/-- The body of the loop at the entry `o`, before the entry `next`, if there is one. -/
def syncEntry (runtime : List Wgpeer) (o : PeerOrigin) (next : Option PeerOrigin)
    (s : SyncState) : SyncState :=
  if o.fromFile then s
  else
    match next with
    | some n =>
        if !n.fromFile || o.publicKey != n.publicKey then
          { s with removals := removal o.publicKey :: s.removals }
        else
          match runtime[o.index]? with
          | some r => { s with sections := s.sections.modify n.index (resetBy r) }
          | none => s
    | none => { s with removals := removal o.publicKey :: s.removals }

theorem mem_origins {fromFile : Bool} {peers : List Wgpeer} {o : PeerOrigin} :
    o ∈ origins fromFile peers ↔
      o.fromFile = fromFile ∧ (peers[o.index]?).map Wgpeer.publicKey = some o.publicKey := by
  simp only [origins, List.mem_mapIdx]
  constructor
  · rintro ⟨i, hi, rfl⟩
    simp [hi]
  · rintro ⟨rfl, h⟩
    obtain ⟨p, hp, hkey⟩ := Option.map_eq_some_iff.mp h
    obtain ⟨hi, rfl⟩ := List.getElem?_eq_some_iff.mp hp
    exact ⟨o.index, hi, by rw [hkey]⟩

/-- The order in which entries are sorted: by their keys, those of the device before those of the
file, and by their places. -/
def Before (a b : PeerOrigin) : Prop :=
  a.publicKey.toNat < b.publicKey.toNat ∨ (a.publicKey = b.publicKey ∧
    (a.fromFile = false ∧ b.fromFile = true ∨ a.fromFile = b.fromFile ∧ a.index < b.index))

structure Sorted (file runtime : List Wgpeer) (L : List PeerOrigin) : Prop where
  mem : ∀ o, o ∈ L ↔ o ∈ origins true file ∨ o ∈ origins false runtime
  sorted : L.Pairwise Before

variable {file runtime : List Wgpeer} {L before rest : List PeerOrigin} {o : PeerOrigin}

/-- Behind an entry of the device comes the first section with its key. -/
theorem Sorted.next (h : Sorted file runtime L) (hL : L = before ++ o :: rest)
    (ho : o.fromFile = false)
    (hunique : ∀ a ∈ L, a.fromFile = false → a.publicKey = o.publicKey → a = o)
    {m : PeerOrigin} (hm : m ∈ origins true file) (hkey : m.publicKey = o.publicKey) :
    ∃ n rest', rest = n :: rest' ∧ n ∈ origins true file ∧ n.publicKey = o.publicKey ∧
      n.index ≤ m.index := by
  have hsorted := h.sorted
  have hmfile := (mem_origins.mp hm).1
  have hmL : m ∈ L := (h.mem m).mpr (.inl hm)
  rw [hL] at hsorted hmL
  obtain ⟨-, hsuffix, hbefore⟩ := List.pairwise_append.mp hsorted
  obtain ⟨hafter, hrest⟩ := List.pairwise_cons.mp hsuffix
  have hmrest : m ∈ rest := by
    rcases List.mem_append.mp hmL with hmem | hmem
    · have hle := hbefore m hmem o List.mem_cons_self
      simp [Before, hkey, hmfile, ho] at hle
    · refine (List.mem_cons.mp hmem).resolve_left ?_
      rintro rfl
      rw [ho] at hmfile
      cases hmfile
  obtain ⟨n, rest', rfl⟩ := List.exists_cons_of_ne_nil (List.ne_nil_of_mem hmrest)
  have hon := hafter n List.mem_cons_self
  have hnm : n = m ∨ Before n m :=
    (List.mem_cons.mp hmrest).imp Eq.symm ((List.pairwise_cons.mp hrest).1 m)
  -- The entry lies between two entries with the same key.
  have hnkey : n.publicKey = o.publicKey := by
    rcases hnm with rfl | hlt | ⟨heq, -⟩
    · exact hkey
    · rw [hkey] at hlt
      rcases hon with hlt' | ⟨heq, -⟩
      · omega
      · exact heq.symm
    · exact heq.trans hkey
  have hnL : n ∈ L := by simp [hL]
  have hnfile : n ∈ origins true file := by
    refine ((h.mem n).mp hnL).resolve_right fun hn => ?_
    obtain rfl := hunique n hnL (mem_origins.mp hn).1 hnkey
    simp [Before] at hon
  refine ⟨n, rest', rfl, hnfile, hnkey, ?_⟩
  rcases hnm with rfl | hlt
  · exact le_rfl
  · simp only [Before, hnkey, hkey, (mem_origins.mp hnfile).1, hmfile, lt_irrefl, false_or,
      true_and, reduceCtorEq, false_and] at hlt
    exact hlt.le

/-! ## The loop -/

/-- The sections of a file, each first one of its key reset by the peer with this key; the keys
`done` have been met. -/
def resetFirsts (Q : Key → Option Wgpeer) : List Key → List Wgpeer → List Wgpeer
  | _, [] => []
  | done, s :: rest =>
      (if s.publicKey ∈ done then s else (Q s.publicKey).elim s (resetBy · s)) ::
        resetFirsts Q (s.publicKey :: done) rest

theorem resetFirsts_congr {Q Q' : Key → Option Wgpeer} {done : List Key}
    (h : ∀ k ∉ done, Q k = Q' k) : resetFirsts Q done file = resetFirsts Q' done file := by
  induction file generalizing done with
  | nil => rfl
  | cons s rest ih =>
    rw [resetFirsts, resetFirsts, ih fun k hk => h k fun hmem => hk (List.mem_cons_of_mem _ hmem)]
    by_cases hs : s.publicKey ∈ done
    · simp [hs]
    · simp [hs, h _ hs]

theorem modify_resetFirsts {Q : Key → Option Wgpeer} {key : Key} {done : List Key}
    (hQ : Q key = none) (hdone : key ∉ done) (r : Wgpeer) :
    (resetFirsts Q done file).modify (file.findIdx fun t => t.publicKey == key) (resetBy r) =
      resetFirsts (Function.update Q key (some r)) done file := by
  induction file generalizing done with
  | nil => rfl
  | cons s rest ih =>
    rw [resetFirsts, resetFirsts]
    by_cases hkey : s.publicKey = key
    · subst hkey
      have hrest : resetFirsts Q (s.publicKey :: done) rest =
          resetFirsts (Function.update Q s.publicKey (some r)) (s.publicKey :: done) rest :=
        resetFirsts_congr fun k hk =>
          (Function.update_of_ne (List.ne_of_not_mem_cons hk) _ _).symm
      simp [List.findIdx_cons, hdone, hQ, hrest]
    · have hrest := ih (show key ∉ s.publicKey :: done by simp [hdone, Ne.symm hkey])
      simp [List.findIdx_cons, beq_eq_false_iff_ne.mpr hkey, hkey, hrest]

/-- A peer of the device whose entry is one of the given ones. -/
def Seen (runtime : List Wgpeer) (entries : List PeerOrigin) (r : Wgpeer) : Prop :=
  ∃ o ∈ entries, o.fromFile = false ∧ runtime[o.index]? = some r

/-- What the loop has done after some entries: it has reset the first sections of the peers that
the file has, and asked for the removal of the others. -/
structure Synced (file : List Wgpeer) (seen : Wgpeer → Prop) (s : SyncState)
    (Q : Key → Option Wgpeer) : Prop where
  sections : s.sections = resetFirsts Q [] file
  resets : ∀ k r, Q k = some r ↔ (seen r ∧ r.publicKey = k) ∧ k ∈ file.map Wgpeer.publicKey
  removals : ∀ x, x ∈ s.removals ↔
    ∃ r, seen r ∧ r.publicKey ∉ file.map Wgpeer.publicKey ∧ x = removal r.publicKey

variable {seen : Wgpeer → Prop} {s : SyncState} {Q : Key → Option Wgpeer} {r : Wgpeer}

/-- The entry of a peer that the file does not have. -/
theorem Synced.remove (h : Synced file seen s Q)
    (habsent : r.publicKey ∉ file.map Wgpeer.publicKey) :
    Synced file (fun x => seen x ∨ x = r)
      { s with removals := removal r.publicKey :: s.removals } Q where
  sections := h.sections
  resets k x := by
    rw [h.resets]
    constructor
    · rintro ⟨⟨hx, hkey⟩, hk⟩
      exact ⟨⟨.inl hx, hkey⟩, hk⟩
    · rintro ⟨⟨hx | rfl, rfl⟩, hk⟩
      · exact ⟨⟨hx, rfl⟩, hk⟩
      · exact absurd hk habsent
  removals x := by
    rw [List.mem_cons, h.removals]
    constructor
    · rintro (rfl | ⟨q, hq, hx⟩)
      · exact ⟨r, .inr rfl, habsent, rfl⟩
      · exact ⟨q, .inl hq, hx⟩
    · rintro ⟨q, hq | rfl, hx⟩
      · exact .inr ⟨q, hq, hx⟩
      · exact .inl hx.2

/-- The entry of a peer with a section; it is the only one with its key. -/
theorem Synced.reset (h : Synced file seen s Q) (hin : r.publicKey ∈ file.map Wgpeer.publicKey)
    (hnew : ∀ x, seen x → x.publicKey ≠ r.publicKey) :
    Synced file (fun x => seen x ∨ x = r)
      ⟨s.removals,
        s.sections.modify (file.findIdx fun t => t.publicKey == r.publicKey) (resetBy r)⟩
      (Function.update Q r.publicKey (some r)) where
  sections := by
    have hnone : Q r.publicKey = none := by
      rw [Option.eq_none_iff_forall_ne_some]
      intro x hx
      obtain ⟨⟨hseen, hkey⟩, -⟩ := (h.resets _ x).mp hx
      exact hnew x hseen hkey
    rw [h.sections]
    exact modify_resetFirsts hnone List.not_mem_nil r
  resets k x := by
    by_cases hk : k = r.publicKey
    · subst hk
      rw [Function.update_self, Option.some.injEq]
      constructor
      · rintro rfl
        exact ⟨⟨.inr rfl, rfl⟩, hin⟩
      · rintro ⟨⟨hx | rfl, hkey⟩, -⟩
        · exact absurd hkey (hnew x hx)
        · rfl
    · rw [Function.update_of_ne hk, h.resets]
      constructor
      · rintro ⟨⟨hx, hkey⟩, hmem⟩
        exact ⟨⟨.inl hx, hkey⟩, hmem⟩
      · rintro ⟨⟨hx | rfl, hkey⟩, hmem⟩
        · exact ⟨⟨hx, hkey⟩, hmem⟩
        · exact absurd hkey.symm hk
  removals x := by
    rw [h.removals]
    constructor
    · rintro ⟨q, hq, hx⟩
      exact ⟨q, .inl hq, hx⟩
    · rintro ⟨q, hq | rfl, hx⟩
      · exact ⟨q, hq, hx⟩
      · exact absurd hin hx.1

theorem origins_unique (hkeys : (runtime.map Wgpeer.publicKey).Nodup) {a b : PeerOrigin}
    (ha : a ∈ origins false runtime) (hb : b ∈ origins false runtime)
    (hkey : a.publicKey = b.publicKey) : a = b := by
  obtain ⟨hfa, ha⟩ := mem_origins.mp ha
  obtain ⟨hfb, hb⟩ := mem_origins.mp hb
  rw [← List.getElem?_map] at ha hb
  have hindex : a.index = b.index :=
    (List.getElem?_inj (List.getElem?_eq_some_iff.mp ha).1 hkeys).mp (ha.trans (hkey ▸ hb.symm))
  cases a
  cases b
  simp_all

/-- One entry. -/
theorem Synced.step (hL : Sorted file runtime L) (hkeys : (runtime.map Wgpeer.publicKey).Nodup)
    (hsplit : L = before ++ o :: rest) (h : Synced file (Seen runtime before) s Q) :
    ∃ Q', Synced file (Seen runtime (before ++ [o])) (syncEntry runtime o rest.head? s) Q' := by
  have hmem {a : PeerOrigin} (ha : a ∈ L) (hfa : a.fromFile = false) :
      a ∈ origins false runtime := by
    refine ((hL.mem a).mp ha).resolve_left fun hfile => ?_
    rw [(mem_origins.mp hfile).1] at hfa
    cases hfa
  have hoL : o ∈ L := by simp [hsplit]
  cases ho : o.fromFile with
  | true =>
    have hseen : Seen runtime (before ++ [o]) = Seen runtime before := by
      funext x
      simp [Seen, or_and_right, exists_or, ho]
    rw [hseen]
    simp only [syncEntry, ho, if_true]
    exact ⟨Q, h⟩
  | false =>
    have hunique : ∀ a ∈ L, a.fromFile = false → a.publicKey = o.publicKey → a = o :=
      fun a ha hfa => origins_unique hkeys (hmem ha hfa) (hmem hoL ho)
    obtain ⟨r, hr, hrkey⟩ := Option.map_eq_some_iff.mp (mem_origins.mp (hmem hoL ho)).2
    have hseen : Seen runtime (before ++ [o]) = fun x => Seen runtime before x ∨ x = r := by
      funext x
      simp [Seen, or_and_right, exists_or, ho, hr, eq_comm (a := x)]
    have hnew : ∀ x, Seen runtime before x → x.publicKey ≠ r.publicKey := by
      rintro x ⟨a, ha, hfa, hx⟩ hkey
      have haL : a ∈ L := by simp [hsplit, ha]
      have hakey := (mem_origins.mp (hmem haL hfa)).2
      rw [hx, Option.map_some, Option.some.injEq] at hakey
      obtain rfl := hunique a haL hfa (hakey.symm.trans (hkey.trans hrkey))
      have hsorted := hL.sorted
      rw [hsplit, List.pairwise_append] at hsorted
      simpa [Before] using hsorted.2.2 a ha a List.mem_cons_self
    rw [hseen]
    by_cases hin : r.publicKey ∈ file.map Wgpeer.publicKey
    · -- The next entry is the first section of the peer.
      have hfirst : file.findIdx (fun t => t.publicKey == r.publicKey) < file.length := by
        obtain ⟨p, hp, hkey⟩ := List.mem_map.mp hin
        exact List.findIdx_lt_length_of_exists ⟨p, hp, by simpa using hkey⟩
      have hm : (⟨file.findIdx (fun t => t.publicKey == r.publicKey), o.publicKey, true⟩ :
          PeerOrigin) ∈ origins true file := by
        refine mem_origins.mpr ⟨rfl, ?_⟩
        have hkey := @List.findIdx_getElem _ (fun t => t.publicKey == r.publicKey) file hfirst
        simpa [hfirst, ← hrkey] using hkey
      obtain ⟨n, rest', rfl, hn, hnkey, hle⟩ := hL.next hsplit ho hunique hm rfl
      have hindex : n.index = file.findIdx fun t => t.publicKey == r.publicKey := by
        apply le_antisymm hle
        by_contra hlt
        obtain ⟨p, hp, hpkey⟩ := Option.map_eq_some_iff.mp (mem_origins.mp hn).2
        obtain ⟨hi, rfl⟩ := List.getElem?_eq_some_iff.mp hp
        have hnot := List.not_of_lt_findIdx (Nat.lt_of_not_le hlt)
        simp [hpkey, hnkey, hrkey] at hnot
      have hentry : syncEntry runtime o (n :: rest').head? s =
          { s with sections := s.sections.modify n.index (resetBy r) } := by
        simp [syncEntry, ho, (mem_origins.mp hn).1, hnkey, hr]
      rw [hentry, hindex]
      exact ⟨_, h.reset hin hnew⟩
    · -- No section of the peer can come next.
      have hentry : syncEntry runtime o rest.head? s =
          { s with removals := removal r.publicKey :: s.removals } := by
        cases rest with
        | nil => simp [syncEntry, ho, hrkey]
        | cons n rest' =>
          have hbad : (!n.fromFile || o.publicKey != n.publicKey) = true := by
            by_contra hgood
            simp only [Bool.or_eq_true, Bool.not_eq_true', bne_iff_ne, not_or, Bool.not_eq_false,
              ne_eq, not_not] at hgood
            rcases (hL.mem n).mp (by simp [hsplit]) with hfile | hruntime
            · obtain ⟨p, hp, hkey⟩ := Option.map_eq_some_iff.mp (mem_origins.mp hfile).2
              rw [hrkey, hgood.2, ← hkey] at hin
              exact hin (List.mem_map_of_mem (List.mem_of_getElem? hp))
            · rw [(mem_origins.mp hruntime).1] at hgood
              cases hgood.1
          simp only [syncEntry, ho, Bool.false_eq_true, if_false, List.head?_cons, hbad, if_true,
            hrkey]
      rw [hentry]
      exact ⟨Q, h.remove hin⟩

end Tools

end WgTcp
