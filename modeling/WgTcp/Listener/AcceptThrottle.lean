import WgTcp.Foundation.Transition
import WgTcp.Netlink.Attr

/-!
# The accept throttle

Before a provisional peer is created for an accepted connection, the source
address passes a fixed table of counters: `wg_tcp_accept_rate_allow` finds the
slot of the source, an empty one or the one seen least recently, and counts the
attempt against a window of one second. A slot stands for a host: the port is
ignored, and the scope only matters to link-local addresses.
-/

namespace WgTcp

namespace Listener

open Netlink (SockAddr ipv6LinkLocal)

/-! ## Sources -/

def wgSockaddrsSameHost : SockAddr → SockAddr → Bool
  | .inet _ a, .inet _ b => a == b
  | .inet6 _ a scope, .inet6 _ b scope' => a == b && (!ipv6LinkLocal a || scope == scope')
  | _, _ => false

inductive SourceFamily where
  | unspec
  | inet
  | inet6
deriving Repr, DecidableEq

/-- `struct wg_tcp_accept_source`; of the union `address` the member of the family is read. -/
structure AcceptSource where
  family : SourceFamily
  addr4 : BitVec 32
  addr6 : BitVec 128
  windowStarted : BitVec 64
  lastSeen : BitVec 64
  scopeId : Nat
  accepts : Nat
deriving Repr, DecidableEq

namespace AcceptSource

/-- An empty slot: zeroed memory. -/
def zero : AcceptSource := ⟨.unspec, 0, 0, 0, 0, 0, 0⟩

/-- `wg_tcp_accept_source_matches`. -/
def wgTcpAcceptSourceMatches (source : AcceptSource) : SockAddr → Bool
  | .inet _ addr => source.family == .inet && source.addr4 == addr
  | .inet6 _ addr scope =>
      source.family == .inet6 && source.addr6 == addr &&
        (!ipv6LinkLocal addr || source.scopeId == scope)

/-- `wg_tcp_accept_source_set`. -/
def wgTcpAcceptSourceSet (addr : SockAddr) (now : BitVec 64) : AcceptSource :=
  let source :=
    match addr with
    | .inet _ addr => { zero with family := .inet, addr4 := addr }
    | .inet6 _ addr scope =>
        { zero with
          family := .inet6
          addr6 := addr
          scopeId := if ipv6LinkLocal addr then scope else 0 }
  { source with windowStarted := now, lastSeen := now, accepts := 1 }

end AcceptSource

open AcceptSource

/-! ## The clock

Jiffies wrap around; `time_before` and `time_after_eq` compare by the sign of the
difference. Seen from a start `t₀`, they agree with the order of the elapsed time as
long as this stays below half the range. -/

def timeBefore (a b : BitVec 64) : Bool := decide ((a - b).toInt < 0)

def timeAfterEq (a b : BitVec 64) : Bool := decide (0 ≤ (a - b).toInt)

/-- The jiffies elapsed since `t₀`. -/
def elapsed (t₀ t : BitVec 64) : Nat := (t - t₀).toNat

/-- The compile-time constant `HZ`, a positive `int`. -/
structure Hz where
  val : Nat
  pos : 0 < val
  lt : val < 2 ^ 31

def wgTcpAcceptWindow (hz : Hz) : BitVec 64 := BitVec.ofNat 64 hz.val

def wgTcpAcceptBurst : Nat := 32

theorem timeBefore_iff {t₀ a b : BitVec 64} (ha : elapsed t₀ a < 2 ^ 63)
    (hb : elapsed t₀ b < 2 ^ 63) : timeBefore a b = true ↔ elapsed t₀ a < elapsed t₀ b := by
  unfold timeBefore elapsed at *
  rw [decide_eq_true_iff, BitVec.toInt_eq_toNat_cond]
  bv_omega

theorem timeAfterEq_window_iff (hz : Hz) {t₀ start now : BitVec 64}
    (hle : elapsed t₀ start ≤ elapsed t₀ now) (hnow : elapsed t₀ now < 2 ^ 63) :
    timeAfterEq now (start + wgTcpAcceptWindow hz) = true ↔
      elapsed t₀ start + hz.val ≤ elapsed t₀ now := by
  have hhz : (wgTcpAcceptWindow hz).toNat = hz.val := by
    have := hz.lt
    simp only [wgTcpAcceptWindow, BitVec.toNat_ofNat]
    omega
  have hlt := hz.lt
  rw [← hhz] at hlt ⊢
  unfold timeAfterEq elapsed at *
  rw [decide_eq_true_iff, BitVec.toInt_eq_toNat_cond]
  bv_omega

/-! ## The table -/

def wgTcpAcceptSourceSlots : Nat := 128

structure SourceTable where
  slots : List AcceptSource
  size : slots.length = wgTcpAcceptSourceSlots

namespace SourceTable

def init : SourceTable :=
  ⟨List.replicate wgTcpAcceptSourceSlots zero, List.length_replicate⟩

def set (T : SourceTable) (i : Nat) (source : AcceptSource) : SourceTable :=
  ⟨T.slots.set i source, by rw [List.length_set, T.size]⟩

end SourceTable

/-- How the search loop ends: at the slot of the source, or after the last slot with the first
empty and the oldest slot. -/
inductive Search where
  | source (slot : Nat) (source : AcceptSource)
  | missing (empty oldest : Option Nat)

/-- The `oldest` pointer, kept with the `last_seen` it points to, after an occupied slot of
another source. -/
def newOldest (oldest : Option (Nat × BitVec 64)) (i : Nat) (seen : BitVec 64) :
    Option (Nat × BitVec 64) :=
  match oldest with
  | none => some (i, seen)
  | some (_, oldestSeen) => if timeBefore seen oldestSeen then some (i, seen) else oldest

def search (addr : SockAddr) :
    List AcceptSource → Nat → Option Nat → Option (Nat × BitVec 64) → Search
  | [], _, empty, oldest => .missing empty (oldest.map Prod.fst)
  | candidate :: rest, i, empty, oldest =>
      if candidate.family == .unspec then
        search addr rest (i + 1) (empty.or (some i)) oldest
      else if candidate.wgTcpAcceptSourceMatches addr then .source i candidate
      else
        search addr rest (i + 1) empty (newOldest oldest i candidate.lastSeen)

/-- The branches for a source that has a slot: a new window, a refusal, or one more accept. -/
def AcceptSource.count (hz : Hz) (source : AcceptSource) (addr : SockAddr) (now : BitVec 64) :
    Bool × AcceptSource :=
  if timeAfterEq now (source.windowStarted + wgTcpAcceptWindow hz) then
    (true, wgTcpAcceptSourceSet addr now)
  else if wgTcpAcceptBurst ≤ source.accepts then (false, { source with lastSeen := now })
  else (true, { source with accepts := source.accepts + 1, lastSeen := now })

theorem AcceptSource.count_cases (hz : Hz) (s : AcceptSource) (addr : SockAddr)
    (now : BitVec 64) :
    (timeAfterEq now (s.windowStarted + wgTcpAcceptWindow hz) = true ∧
      s.count hz addr now = (true, wgTcpAcceptSourceSet addr now)) ∨
    (timeAfterEq now (s.windowStarted + wgTcpAcceptWindow hz) = false ∧
      wgTcpAcceptBurst ≤ s.accepts ∧ s.count hz addr now = (false, { s with lastSeen := now })) ∨
    (timeAfterEq now (s.windowStarted + wgTcpAcceptWindow hz) = false ∧
      s.accepts < wgTcpAcceptBurst ∧
      s.count hz addr now = (true, { s with accepts := s.accepts + 1, lastSeen := now })) := by
  unfold AcceptSource.count
  cases timeAfterEq now (s.windowStarted + wgTcpAcceptWindow hz) with
  | true => exact .inl ⟨rfl, rfl⟩
  | false =>
    by_cases hburst : wgTcpAcceptBurst ≤ s.accepts
    · exact .inr (.inl ⟨rfl, hburst, by simp [hburst]⟩)
    · exact .inr (.inr ⟨rfl, Nat.lt_of_not_le hburst, by simp [hburst]⟩)

def wgTcpAcceptRateAllow (hz : Hz) (T : SourceTable) (addr : SockAddr) (now : BitVec 64) :
    Bool × SourceTable :=
  match search addr T.slots 0 none none with
  | .source i source =>
      let (allowed, source) := source.count hz addr now
      (allowed, T.set i source)
  | .missing empty oldest =>
      -- The table has slots, so that one of the two pointers is set.
      (true, T.set ((empty.or oldest).getD 0) (wgTcpAcceptSourceSet addr now))

/-! ## Hosts -/

theorem sameHost_refl (a : SockAddr) : wgSockaddrsSameHost a a = true := by
  cases a <;> simp [wgSockaddrsSameHost]

/-- A slot that matches one address matches exactly the addresses of the same host. -/
theorem matches_eq_sameHost {s : AcceptSource} {a : SockAddr}
    (h : s.wgTcpAcceptSourceMatches a = true) (b : SockAddr) :
    s.wgTcpAcceptSourceMatches b = wgSockaddrsSameHost a b := by
  cases a with
  | inet port addr =>
    simp only [wgTcpAcceptSourceMatches, Bool.and_eq_true, beq_iff_eq] at h
    cases b <;> simp [wgTcpAcceptSourceMatches, wgSockaddrsSameHost, h]
  | inet6 port addr scope =>
    simp only [wgTcpAcceptSourceMatches, Bool.and_eq_true, beq_iff_eq, Bool.or_eq_true] at h
    obtain ⟨⟨hfamily, haddr⟩, hscope⟩ := h
    cases b with
    | inet port' addr' => simp [wgTcpAcceptSourceMatches, wgSockaddrsSameHost, hfamily]
    | inet6 port' addr' scope' =>
      simp only [wgTcpAcceptSourceMatches, wgSockaddrsSameHost, hfamily, haddr]
      by_cases heq : addr = addr'
      · subst heq
        cases hlocal : ipv6LinkLocal addr with
        | false => simp
        | true =>
          have : s.scopeId = scope := by simpa [hlocal] using hscope
          simp [this]
      · simp [beq_eq_false_iff_ne.mpr heq]

theorem matches_set_self (a : SockAddr) (now : BitVec 64) :
    (wgTcpAcceptSourceSet a now).wgTcpAcceptSourceMatches a = true := by
  cases a with
  | inet port addr => simp [wgTcpAcceptSourceMatches, wgTcpAcceptSourceSet]
  | inet6 port addr scope =>
    cases h : ipv6LinkLocal addr <;> simp [wgTcpAcceptSourceMatches, wgTcpAcceptSourceSet, h]

theorem matches_set (a b : SockAddr) (now : BitVec 64) :
    (wgTcpAcceptSourceSet a now).wgTcpAcceptSourceMatches b = wgSockaddrsSameHost a b :=
  matches_eq_sameHost (matches_set_self a now) b

theorem sameHost_comm (a b : SockAddr) : wgSockaddrsSameHost a b = wgSockaddrsSameHost b a := by
  cases h : wgSockaddrsSameHost a b with
  | true =>
    rw [← matches_set a b 0] at h
    rw [← matches_eq_sameHost h, matches_set_self]
  | false =>
    cases h' : wgSockaddrsSameHost b a with
    | false => rfl
    | true =>
      rw [← matches_set b a 0] at h'
      rw [← matches_eq_sameHost h', matches_set_self] at h
      cases h

theorem matches_congr {a b : SockAddr} (h : wgSockaddrsSameHost a b = true) (s : AcceptSource) :
    s.wgTcpAcceptSourceMatches a = s.wgTcpAcceptSourceMatches b := by
  cases ha : s.wgTcpAcceptSourceMatches a with
  | true => rw [matches_eq_sameHost ha, h]
  | false =>
    cases hb : s.wgTcpAcceptSourceMatches b with
    | false => rfl
    | true => rw [← ha, matches_eq_sameHost hb, sameHost_comm, h]

theorem occupied_of_matches {s : AcceptSource} {a : SockAddr}
    (h : s.wgTcpAcceptSourceMatches a = true) : s.family ≠ .unspec := by
  intro hfamily
  cases a <;> simp [wgTcpAcceptSourceMatches, hfamily] at h

theorem count_matches (hz : Hz) {s : AcceptSource} {a : SockAddr} (now : BitVec 64)
    (h : s.wgTcpAcceptSourceMatches a = true) :
    (s.count hz a now).2.wgTcpAcceptSourceMatches a = true := by
  rcases s.count_cases hz a now with ⟨-, hcount⟩ | ⟨-, -, hcount⟩ | ⟨-, -, hcount⟩
  · rw [hcount]
    exact matches_set_self a now
  all_goals
    rw [hcount]
    cases a <;> exact h

/-! ## The search -/

/-- What the loop knows after the slots in `done`. -/
structure Scanned (t₀ : BitVec 64) (addr : SockAddr) (done : List AcceptSource)
    (empty : Option Nat) (oldest : Option (Nat × BitVec 64)) : Prop where
  missing : ∀ s ∈ done, s.wgTcpAcceptSourceMatches addr = false
  empty_some : ∀ i, empty = some i → ∃ s, done[i]? = some s ∧ s.family = .unspec
  empty_none : empty = none → ∀ s ∈ done, s.family ≠ .unspec
  oldest_some : ∀ i seen, oldest = some (i, seen) →
    ∃ s, done[i]? = some s ∧ s.lastSeen = seen ∧ s.family ≠ .unspec ∧
      ∀ s' ∈ done, s'.family ≠ .unspec → elapsed t₀ seen ≤ elapsed t₀ s'.lastSeen
  oldest_none : oldest = none → ∀ s ∈ done, s.family = .unspec

theorem getElem?_concat_of_some {α : Type*} {l : List α} {i : Nat} {x : α} (h : l[i]? = some x)
    (y : α) : (l ++ [y])[i]? = some x := by
  rw [List.getElem?_append_left (List.getElem?_eq_some_iff.mp h).1, h]

theorem forall_mem_concat {α : Type*} {p : α → Prop} {l : List α} {x : α}
    (hl : ∀ y ∈ l, p y) (hx : p x) : ∀ y ∈ l ++ [x], p y :=
  List.forall_mem_append.mpr ⟨hl, List.forall_mem_singleton.mpr hx⟩

section Scan

variable {t₀ : BitVec 64} {addr : SockAddr} {done : List AcceptSource} {empty : Option Nat}
  {oldest : Option (Nat × BitVec 64)} {c : AcceptSource}

theorem Scanned.skip_empty (h : Scanned t₀ addr done empty oldest) (hc : c.family = .unspec) :
    Scanned t₀ addr (done ++ [c]) (empty.or (some done.length)) oldest where
  missing := by
    apply forall_mem_concat h.missing
    by_contra hmatch
    exact occupied_of_matches (Bool.eq_true_of_not_eq_false hmatch) hc
  empty_some := by
    intro i hi
    cases hempty : empty with
    | some j =>
      rw [hempty, Option.some_or] at hi
      obtain ⟨s, hs, hfamily⟩ := h.empty_some i (by rw [hempty, hi])
      exact ⟨s, getElem?_concat_of_some hs c, hfamily⟩
    | none =>
      rw [hempty, Option.none_or, Option.some.injEq] at hi
      exact ⟨c, by simp [← hi], hc⟩
  empty_none := by
    intro hnone
    cases empty <;> simp at hnone
  oldest_some := by
    intro i seen hi
    obtain ⟨s, hs, hseen, hfamily, hleast⟩ := h.oldest_some i seen hi
    refine ⟨s, getElem?_concat_of_some hs c, hseen, hfamily, ?_⟩
    exact forall_mem_concat hleast fun hoccupied => absurd hc hoccupied
  oldest_none hnone := forall_mem_concat (h.oldest_none hnone) hc

theorem Scanned.skip_other (h : Scanned t₀ addr done empty oldest) (hc : c.family ≠ .unspec)
    (hmatch : c.wgTcpAcceptSourceMatches addr = false)
    (hseen : ∀ s ∈ done ++ [c], s.family ≠ .unspec → elapsed t₀ s.lastSeen < 2 ^ 63) :
    Scanned t₀ addr (done ++ [c]) empty (newOldest oldest done.length c.lastSeen) where
  missing := forall_mem_concat h.missing hmatch
  empty_some := by
    intro i hi
    obtain ⟨s, hs, hfamily⟩ := h.empty_some i hi
    exact ⟨s, getElem?_concat_of_some hs c, hfamily⟩
  empty_none hnone := forall_mem_concat (h.empty_none hnone) hc
  oldest_some := by
    intro i seen hi
    have hself : (done ++ [c])[done.length]? = some c := by simp
    cases holdest : oldest with
    | none =>
      rw [holdest] at hi
      obtain ⟨rfl, rfl⟩ : done.length = i ∧ c.lastSeen = seen := by
        simpa [newOldest] using hi
      refine ⟨c, hself, rfl, hc, forall_mem_concat ?_ fun _ => le_rfl⟩
      intro s' hs' hfamily
      exact absurd (h.oldest_none holdest s' hs') hfamily
    | some o =>
      obtain ⟨j, oldSeen⟩ := o
      obtain ⟨s, hs, rfl, hfamily, hleast⟩ := h.oldest_some j oldSeen holdest
      have hbefore := timeBefore_iff (hseen c (by simp) hc)
        (hseen s (List.mem_append_left _ (List.mem_of_getElem? hs)) hfamily)
      rw [holdest, newOldest] at hi
      split at hi
      · rename_i hlt
        obtain ⟨rfl, rfl⟩ : done.length = i ∧ c.lastSeen = seen := by simpa using hi
        refine ⟨c, hself, rfl, hc, forall_mem_concat ?_ fun _ => le_rfl⟩
        intro s' hs' hoccupied
        exact (hbefore.mp hlt).le.trans (hleast s' hs' hoccupied)
      · rename_i hlt
        obtain ⟨rfl, rfl⟩ : j = i ∧ s.lastSeen = seen := by simpa using hi
        refine ⟨s, getElem?_concat_of_some hs c, rfl, hfamily, forall_mem_concat hleast ?_⟩
        intro _
        exact Nat.le_of_not_lt fun hlt' => hlt (hbefore.mpr hlt')
  oldest_none := by
    intro hnone
    unfold newOldest at hnone
    split at hnone
    · cases hnone
    · split at hnone <;> cases hnone

/-- The search ends at a slot that matches, or has seen every slot. -/
theorem search_spec {rest : List AcceptSource} (h : Scanned t₀ addr done empty oldest)
    (hseen : ∀ s ∈ done ++ rest, s.family ≠ .unspec → elapsed t₀ s.lastSeen < 2 ^ 63) :
    match search addr rest done.length empty oldest with
    | .source i s => (done ++ rest)[i]? = some s ∧ s.wgTcpAcceptSourceMatches addr = true
    | .missing empty' oldest' =>
        ∃ o, Scanned t₀ addr (done ++ rest) empty' o ∧ oldest' = o.map Prod.fst := by
  induction rest generalizing done empty oldest with
  | nil =>
    rw [search, List.append_nil]
    exact ⟨oldest, h, rfl⟩
  | cons c rest ih =>
    have hassoc : done ++ c :: rest = (done ++ [c]) ++ rest := by simp
    have hlen : done.length + 1 = (done ++ [c]).length := by simp
    rw [hassoc] at hseen ⊢
    rw [search]
    by_cases hfamily : c.family = .unspec
    · rw [if_pos (by simpa using hfamily), hlen]
      exact ih (h.skip_empty hfamily) hseen
    · rw [if_neg (by simpa using hfamily)]
      cases hmatch : c.wgTcpAcceptSourceMatches addr with
      | true =>
        rw [if_pos rfl]
        exact ⟨by simp, hmatch⟩
      | false =>
        rw [if_neg Bool.false_ne_true, hlen]
        apply ih _ hseen
        apply h.skip_other hfamily hmatch
        intro s hs
        exact hseen s (List.mem_append_left _ hs)

end Scan

/-! ## One attempt -/

namespace SourceTable

/-- The slot of a source. -/
def slotOf (T : SourceTable) (addr : SockAddr) : Option AcceptSource :=
  T.slots.find? (·.wgTcpAcceptSourceMatches addr)

/-- No address matches two slots. -/
def Unique (T : SourceTable) : Prop :=
  ∀ (i j : Nat) (s s' : AcceptSource), T.slots[i]? = some s → T.slots[j]? = some s' →
    ∀ addr, s.wgTcpAcceptSourceMatches addr = true → s'.wgTcpAcceptSourceMatches addr = true →
      i = j

/-- Every window started, and every source was seen, at most `n` jiffies after `t₀`. -/
def Clocked (t₀ : BitVec 64) (n : Nat) (T : SourceTable) : Prop :=
  ∀ s ∈ T.slots, s.family ≠ .unspec →
    elapsed t₀ s.windowStarted ≤ n ∧ elapsed t₀ s.lastSeen ≤ n

end SourceTable

open SourceTable

section Attempt

variable (hz : Hz) {t₀ : BitVec 64} {n : Nat} {T : SourceTable} (addr : SockAddr)
  (now : BitVec 64)

/-- What one attempt does: it counts against the slot of its source, it takes an empty slot, or
it takes the place of the source seen least recently. -/
theorem rateAllow_cases (hclock : T.Clocked t₀ n) (hn : n < 2 ^ 63) :
    (∃ i s, T.slots[i]? = some s ∧ s.wgTcpAcceptSourceMatches addr = true ∧
      wgTcpAcceptRateAllow hz T addr now =
        ((s.count hz addr now).1, T.set i (s.count hz addr now).2)) ∨
    ((∀ s ∈ T.slots, s.wgTcpAcceptSourceMatches addr = false) ∧
      ∃ i s, T.slots[i]? = some s ∧
        wgTcpAcceptRateAllow hz T addr now =
          (true, T.set i (wgTcpAcceptSourceSet addr now)) ∧
        (s.family = .unspec ∨ ∀ s' ∈ T.slots,
          s'.family ≠ .unspec ∧ elapsed t₀ s.lastSeen ≤ elapsed t₀ s'.lastSeen)) := by
  have hseen : ∀ s ∈ [] ++ T.slots, s.family ≠ .unspec → elapsed t₀ s.lastSeen < 2 ^ 63 := by
    intro s hs hfamily
    exact (hclock s hs hfamily).2.trans_lt hn
  have hinit : Scanned t₀ addr [] none none :=
    ⟨by simp, by simp, by simp, by simp, by simp⟩
  have hspec := search_spec hinit hseen
  rw [List.length_nil, List.nil_append] at hspec
  unfold wgTcpAcceptRateAllow
  split at hspec
  · rename_i i s hsearch
    left
    exact ⟨i, s, hspec.1, hspec.2, rfl⟩
  · rename_i empty oldest hsearch
    obtain ⟨o, hscan, rfl⟩ := hspec
    right
    refine ⟨hscan.missing, ?_⟩
    cases hempty : empty with
    | some i =>
      obtain ⟨s, hs, hfamily⟩ := hscan.empty_some i hempty
      exact ⟨i, s, hs, rfl, .inl hfamily⟩
    | none =>
      have hall := hscan.empty_none hempty
      cases ho : o with
      | some p =>
        obtain ⟨s, hs, hsseen, -, hleast⟩ := hscan.oldest_some p.1 p.2 ho
        refine ⟨p.1, s, hs, rfl, .inr ?_⟩
        intro s' hs'
        rw [hsseen]
        exact ⟨hall s' hs', hleast s' hs' (hall s' hs')⟩
      | none =>
        -- A table of empty slots has an empty slot.
        have hmem : T.slots.get ⟨0, by rw [T.size]; decide⟩ ∈ T.slots := List.get_mem _ _
        exact absurd (hscan.oldest_none ho _ hmem) (hall _ hmem)

end Attempt

/-! ## The view of one source -/

section View

variable {T : SourceTable} {i : Nat} {s old new : AcceptSource} {addr b : SockAddr}

theorem matches_of_slotOf (h : T.slotOf b = some s) :
    s ∈ T.slots ∧ s.wgTcpAcceptSourceMatches b = true := by
  refine ⟨List.mem_of_find?_eq_some h, ?_⟩
  have hsome := List.find?_some h
  exact hsome

theorem SourceTable.Unique.slotOf_eq_some (hu : T.Unique) (hs : s ∈ T.slots)
    (hmatch : s.wgTcpAcceptSourceMatches b = true) : T.slotOf b = some s := by
  obtain ⟨i, hi⟩ := List.mem_iff_getElem?.mp hs
  cases hfind : T.slotOf b with
  | none =>
    have hnone := List.find?_eq_none.mp hfind s hs
    exact absurd hmatch hnone
  | some s' =>
    obtain ⟨hmem, hmatch'⟩ := matches_of_slotOf hfind
    obtain ⟨j, hj⟩ := List.mem_iff_getElem?.mp hmem
    have hij := hu i j s s' hi hj b hmatch hmatch'
    rw [← hij, hi] at hj
    exact hj.symm

theorem slotOf_eq_none_iff :
    T.slotOf b = none ↔ ∀ s ∈ T.slots, s.wgTcpAcceptSourceMatches b = false := by
  simp [slotOf, List.find?_eq_none]

theorem slotOf_congr (h : wgSockaddrsSameHost addr b = true) : T.slotOf addr = T.slotOf b := by
  unfold slotOf
  congr 1
  funext s
  exact matches_congr h s

/-- Slot `i` becomes the only slot of the source of `addr`. -/
structure Replaces (T : SourceTable) (i : Nat) (new : AcceptSource) (addr : SockAddr) : Prop where
  bound : i < T.slots.length
  matched : new.wgTcpAcceptSourceMatches addr = true
  others : ∀ (j : Nat) s, j ≠ i → T.slots[j]? = some s → s.wgTcpAcceptSourceMatches addr = false

theorem slots_set_self (h : Replaces T i new addr) : (T.set i new).slots[i]? = some new := by
  simp [SourceTable.set, h.bound]

theorem slots_set_ne {j : Nat} (hj : j ≠ i) : (T.set i new).slots[j]? = T.slots[j]? := by
  simp [SourceTable.set, List.getElem?_set_ne hj.symm]

theorem mem_set_slots (h : s ∈ (T.set i new).slots) : s = new ∨ s ∈ T.slots := by
  rcases List.mem_or_eq_of_mem_set h with h | h
  · exact .inr h
  · exact .inl h

theorem Replaces.unique (h : Replaces T i new addr) (hu : T.Unique) : (T.set i new).Unique := by
  have hother : ∀ (j : Nat) s b, j ≠ i → T.slots[j]? = some s →
      s.wgTcpAcceptSourceMatches b = true → new.wgTcpAcceptSourceMatches b = false := by
    intro j s b hj hs hmatch
    by_contra hnew
    have hhost := matches_eq_sameHost h.matched b
    rw [Bool.eq_true_of_not_eq_false hnew] at hhost
    rw [← matches_congr hhost.symm, h.others j s hj hs] at hmatch
    cases hmatch
  intro j k s s' hs hs' b hmatch hmatch'
  by_cases hj : j = i
  · by_cases hk : k = i
    · rw [hj, hk]
    · rw [hj, slots_set_self h, Option.some.injEq] at hs
      rw [slots_set_ne hk] at hs'
      rw [← hs, hother k s' b hk hs' hmatch'] at hmatch
      cases hmatch
  · rw [slots_set_ne hj] at hs
    by_cases hk : k = i
    · rw [hk, slots_set_self h, Option.some.injEq] at hs'
      rw [← hs', hother j s b hj hs hmatch] at hmatch'
      cases hmatch'
    · rw [slots_set_ne hk] at hs'
      exact hu j k s s' hs hs' b hmatch hmatch'

theorem Replaces.slotOf_same (h : Replaces T i new addr) (hu : T.Unique)
    (hb : wgSockaddrsSameHost addr b = true) : (T.set i new).slotOf b = some new := by
  apply (h.unique hu).slotOf_eq_some (List.mem_of_getElem? (slots_set_self h))
  rw [matches_eq_sameHost h.matched, hb]

/-- The slot of another source stays, unless it is the one overwritten. -/
theorem Replaces.slotOf_other (h : Replaces T i new addr) (hu : T.Unique)
    (hold : T.slots[i]? = some old) (hb : wgSockaddrsSameHost addr b = false) :
    (T.set i new).slotOf b = T.slotOf b ∨
      (T.slotOf b = some old ∧ (T.set i new).slotOf b = none) := by
  have hnew : new.wgTcpAcceptSourceMatches b = false := by rw [matches_eq_sameHost h.matched, hb]
  cases hfind : T.slotOf b with
  | none =>
    left
    rw [slotOf_eq_none_iff] at hfind ⊢
    intro s hs
    rcases mem_set_slots hs with rfl | hs
    · exact hnew
    · exact hfind s hs
  | some s =>
    obtain ⟨hs, hmatch⟩ := matches_of_slotOf hfind
    obtain ⟨j, hj⟩ := List.mem_iff_getElem?.mp hs
    by_cases hji : j = i
    · right
      rw [hji, hold, Option.some.injEq] at hj
      refine ⟨by rw [hj], slotOf_eq_none_iff.mpr ?_⟩
      intro s' hs'
      obtain ⟨k, hk⟩ := List.mem_iff_getElem?.mp hs'
      by_cases hki : k = i
      · rw [hki, slots_set_self h, Option.some.injEq] at hk
        rw [← hk, hnew]
      · rw [slots_set_ne hki] at hk
        by_contra hmatch'
        apply hki
        exact hu k i s' old hk hold b (Bool.eq_true_of_not_eq_false hmatch') (by rw [hj, hmatch])
    · left
      apply (h.unique hu).slotOf_eq_some _ hmatch
      rw [← slots_set_ne hji] at hj
      exact List.mem_of_getElem? hj

end View

/-! ## Runs -/

/-- One accepted connection: the address of its remote end and the time. -/
structure Attempt where
  addr : SockAddr
  now : BitVec 64
deriving Repr, DecidableEq

/-- The slot after an attempt, from the slot its source had before. -/
def countSlot (hz : Hz) (slot : Option AcceptSource) (a : Attempt) : Bool × AcceptSource :=
  match slot with
  | none => (true, wgTcpAcceptSourceSet a.addr a.now)
  | some s => s.count hz a.addr a.now

namespace SourceTable

def allows (hz : Hz) (T : SourceTable) (a : Attempt) : Bool :=
  (wgTcpAcceptRateAllow hz T a.addr a.now).1

def accept (hz : Hz) (T : SourceTable) (a : Attempt) : SourceTable :=
  (wgTcpAcceptRateAllow hz T a.addr a.now).2

def after (hz : Hz) (T : SourceTable) (as : List Attempt) : SourceTable :=
  as.foldl (accept hz) T

/-- The source of `b` has a slot that the attempt gives to another source. -/
def evicts (hz : Hz) (T : SourceTable) (a : Attempt) (b : SockAddr) : Bool :=
  (T.slotOf b).isSome && ((T.accept hz a).slotOf b).isNone

/-- The attempt starts a window of its source. -/
def opens (hz : Hz) (T : SourceTable) (a : Attempt) : Bool :=
  match T.slotOf a.addr with
  | none => true
  | some s => timeAfterEq a.now (s.windowStarted + wgTcpAcceptWindow hz)

/-- The number of attempts of the source of `b` that a run allows. -/
def allowedOf (hz : Hz) (b : SockAddr) : SourceTable → List Attempt → Nat
  | _, [] => 0
  | T, a :: rest =>
      (if wgSockaddrsSameHost a.addr b && T.allows hz a then 1 else 0) +
        allowedOf hz b (T.accept hz a) rest

/-- What holds of every table of a run, `n` jiffies after its start. -/
structure Sound (t₀ : BitVec 64) (n : Nat) (T : SourceTable) : Prop where
  unique : T.Unique
  clocked : T.Clocked t₀ n
  accepts_le : ∀ s ∈ T.slots, s.accepts ≤ wgTcpAcceptBurst

end SourceTable

/-- Times do not decrease, and stay below half the range of jiffies after `t₀`. -/
def Timed (t₀ : BitVec 64) (as : List Attempt) : Prop :=
  as.Pairwise (fun a b => elapsed t₀ a.now ≤ elapsed t₀ b.now) ∧
    ∀ a ∈ as, elapsed t₀ a.now < 2 ^ 63

section Step

variable (hz : Hz) {t₀ : BitVec 64} {n : Nat} {T : SourceTable} (a : Attempt) {b : SockAddr}

theorem countSlot_matches (slot : Option AcceptSource)
    (h : ∀ s, slot = some s → s.wgTcpAcceptSourceMatches a.addr = true) :
    (countSlot hz slot a).2.wgTcpAcceptSourceMatches a.addr = true := by
  cases slot with
  | none => exact matches_set_self a.addr a.now
  | some s => exact count_matches hz a.now (h s rfl)

/-- An attempt in the terms of its source: some slot becomes the slot of the source, counted
from what the source had; the slot was its own, or empty, or least recently seen in a full
table. -/
theorem attempt_cases (h : T.Sound t₀ n) (hn : n < 2 ^ 63) :
    ∃ i old, T.slots[i]? = some old ∧
      T.allows hz a = (countSlot hz (T.slotOf a.addr) a).1 ∧
      T.accept hz a = T.set i (countSlot hz (T.slotOf a.addr) a).2 ∧
      Replaces T i (countSlot hz (T.slotOf a.addr) a).2 a.addr ∧
      (T.slotOf a.addr = some old ∨ old.family = .unspec ∨
        ∀ s ∈ T.slots, s.family ≠ .unspec ∧ s.wgTcpAcceptSourceMatches a.addr = false ∧
          elapsed t₀ old.lastSeen ≤ elapsed t₀ s.lastSeen) := by
  unfold allows accept
  have hmatched := countSlot_matches hz a (T.slotOf a.addr)
    fun s hs => (matches_of_slotOf hs).2
  rcases rateAllow_cases hz a.addr a.now h.clocked hn with
    ⟨i, s, hs, hmatch, hstep⟩ | ⟨hmissing, i, s, hs, hstep, hold⟩
  · have hslot := h.unique.slotOf_eq_some (List.mem_of_getElem? hs) hmatch
    refine ⟨i, s, hs, by rw [hstep, hslot]; rfl, by rw [hstep, hslot]; rfl, ?_, .inl hslot⟩
    refine ⟨(List.getElem?_eq_some_iff.mp hs).1, hmatched, ?_⟩
    intro j s' hj hs'
    by_contra hmatch'
    exact hj (h.unique j i s' s hs' hs a.addr (Bool.eq_true_of_not_eq_false hmatch') hmatch)
  · have hslot := slotOf_eq_none_iff.mpr hmissing
    refine ⟨i, s, hs, by rw [hstep, hslot]; rfl, by rw [hstep, hslot]; rfl, ?_, .inr ?_⟩
    · refine ⟨(List.getElem?_eq_some_iff.mp hs).1, hmatched, ?_⟩
      intro j s' _ hs'
      exact hmissing s' (List.mem_of_getElem? hs')
    · refine hold.imp_right ?_
      intro hleast s' hs'
      exact ⟨(hleast s' hs').1, hmissing s' hs', (hleast s' hs').2⟩

theorem accept_same (h : T.Sound t₀ n) (hn : n < 2 ^ 63)
    (hb : wgSockaddrsSameHost a.addr b = true) :
    T.allows hz a = (countSlot hz (T.slotOf b) a).1 ∧
      (T.accept hz a).slotOf b = some (countSlot hz (T.slotOf b) a).2 := by
  obtain ⟨i, old, -, hallows, haccept, hrepl, -⟩ := attempt_cases hz a h hn
  rw [← slotOf_congr hb]
  exact ⟨hallows, by rw [haccept, hrepl.slotOf_same h.unique hb]⟩

theorem accept_other (h : T.Sound t₀ n) (hn : n < 2 ^ 63)
    (hb : wgSockaddrsSameHost a.addr b = false) :
    (T.accept hz a).slotOf b = T.slotOf b ∨ T.evicts hz a b = true := by
  obtain ⟨i, old, hold, -, haccept, hrepl, -⟩ := attempt_cases hz a h hn
  rw [evicts, haccept]
  refine (hrepl.slotOf_other h.unique hold hb).imp_right ?_
  rintro ⟨hbefore, hafter⟩
  rw [hbefore, hafter]
  rfl

/-- A slot is evicted from a full table only, and it is one seen least recently. -/
theorem evicts_spec (h : T.Sound t₀ n) (hn : n < 2 ^ 63) (hevicts : T.evicts hz a b = true) :
    (∀ s ∈ T.slots, s.family ≠ .unspec ∧ s.wgTcpAcceptSourceMatches a.addr = false) ∧
      ∃ s, T.slotOf b = some s ∧
        ∀ s' ∈ T.slots, elapsed t₀ s.lastSeen ≤ elapsed t₀ s'.lastSeen := by
  obtain ⟨i, old, hold, -, haccept, hrepl, hcase⟩ := attempt_cases hz a h hn
  rw [evicts, haccept, Bool.and_eq_true, Option.isSome_iff_ne_none, Option.isNone_iff_eq_none]
    at hevicts
  cases hb : wgSockaddrsSameHost a.addr b with
  | true =>
    rw [hrepl.slotOf_same h.unique hb] at hevicts
    cases hevicts.2
  | false =>
    rcases hrepl.slotOf_other h.unique hold hb with heq | ⟨hbefore, -⟩
    · exact absurd (heq ▸ hevicts.2) hevicts.1
    · have hmatch := (matches_of_slotOf hbefore).2
      rcases hcase with hself | hempty | hfull
      · -- A slot of both sources would make them the same host.
        have hboth := (matches_of_slotOf hself).2
        rw [matches_eq_sameHost hboth, hb] at hmatch
        cases hmatch
      · exact absurd hempty (occupied_of_matches hmatch)
      · refine ⟨fun s hs => ⟨(hfull s hs).1, (hfull s hs).2.1⟩, old, hbefore, ?_⟩
        exact fun s hs => (hfull s hs).2.2

/-- The slot an attempt leaves is clocked by the attempt, and its count stays within the burst. -/
theorem countSlot_bounds {slot : Option AcceptSource} (hle : n ≤ elapsed t₀ a.now)
    (hstart : ∀ s, slot = some s → elapsed t₀ s.windowStarted ≤ n)
    (haccepts : ∀ s, slot = some s → s.accepts ≤ wgTcpAcceptBurst) :
    elapsed t₀ (countSlot hz slot a).2.windowStarted ≤ elapsed t₀ a.now ∧
      (countSlot hz slot a).2.lastSeen = a.now ∧
      (countSlot hz slot a).2.accepts ≤ wgTcpAcceptBurst := by
  cases slot with
  | none => exact ⟨le_rfl, rfl, show 1 ≤ wgTcpAcceptBurst by decide⟩
  | some s =>
    have hs := (hstart s rfl).trans hle
    rw [countSlot]
    rcases s.count_cases hz a.addr a.now with
      ⟨-, hcount⟩ | ⟨-, -, hcount⟩ | ⟨-, hlt, hcount⟩
    · rw [hcount]
      exact ⟨le_rfl, rfl, show 1 ≤ wgTcpAcceptBurst by decide⟩
    · rw [hcount]
      exact ⟨hs, rfl, haccepts s rfl⟩
    · rw [hcount]
      exact ⟨hs, rfl, hlt⟩

theorem SourceTable.Sound.accept (h : T.Sound t₀ n) (hle : n ≤ elapsed t₀ a.now)
    (hnow : elapsed t₀ a.now < 2 ^ 63) : (T.accept hz a).Sound t₀ (elapsed t₀ a.now) := by
  obtain ⟨i, old, -, -, haccept, hrepl, -⟩ := attempt_cases hz a h (hle.trans_lt hnow)
  have hmem : ∀ s, T.slotOf a.addr = some s → s ∈ T.slots ∧ s.family ≠ .unspec := by
    intro s hs
    exact ⟨(matches_of_slotOf hs).1, occupied_of_matches (matches_of_slotOf hs).2⟩
  obtain ⟨hstart, hseen, haccepts⟩ := countSlot_bounds hz a hle
    (fun s hs => (h.clocked s (hmem s hs).1 (hmem s hs).2).1)
    (fun s hs => h.accepts_le s (hmem s hs).1)
  rw [haccept]
  refine ⟨hrepl.unique h.unique, ?_, ?_⟩
  · intro s hs hfamily
    rcases mem_set_slots hs with rfl | hs
    · exact ⟨hstart, by rw [hseen]⟩
    · obtain ⟨hstart', hseen'⟩ := h.clocked s hs hfamily
      exact ⟨hstart'.trans hle, hseen'.trans hle⟩
  · intro s hs
    rcases mem_set_slots hs with rfl | hs
    · exact haccepts
    · exact h.accepts_le s hs

end Step

/-! ## Runs of attempts -/

theorem SourceTable.Sound.init (t₀ : BitVec 64) : SourceTable.init.Sound t₀ 0 := by
  have hzero : ∀ s ∈ SourceTable.init.slots, s = zero := fun s hs => List.eq_of_mem_replicate hs
  refine ⟨?_, ?_, ?_⟩
  · intro i j s s' hs _ b hmatch
    have hfamily := occupied_of_matches hmatch
    rw [hzero s (List.mem_of_getElem? hs)] at hfamily
    exact absurd rfl hfamily
  · intro s hs hfamily
    rw [hzero s hs] at hfamily
    exact absurd rfl hfamily
  · intro s hs
    rw [hzero s hs]
    decide

theorem timed_cons {t₀ : BitVec 64} {a : Attempt} {as : List Attempt} (h : Timed t₀ (a :: as)) :
    Timed t₀ as ∧ elapsed t₀ a.now < 2 ^ 63 ∧ ∀ b ∈ as, elapsed t₀ a.now ≤ elapsed t₀ b.now := by
  obtain ⟨hsorted, hlt⟩ := h
  obtain ⟨hhead, htail⟩ := List.pairwise_cons.mp hsorted
  exact ⟨⟨htail, fun b hb => hlt b (by simp [hb])⟩, hlt a (by simp), hhead⟩

theorem Timed.left {t₀ : BitVec 64} {as bs : List Attempt} (h : Timed t₀ (as ++ bs)) :
    Timed t₀ as :=
  ⟨(List.pairwise_append.mp h.1).1, fun x hx => h.2 x (List.mem_append_left _ hx)⟩

section Run

variable (hz : Hz) {t₀ : BitVec 64} {T : SourceTable} {n : Nat}

theorem after_append (T : SourceTable) (as bs : List Attempt) :
    T.after hz (as ++ bs) = (T.after hz as).after hz bs :=
  List.foldl_append

/-- The run lemma: a sound table stays sound, and the attempts to come are not before it. -/
theorem SourceTable.Sound.after {as bs : List Attempt} (h : T.Sound t₀ n)
    (hn : ∀ a ∈ as ++ bs, n ≤ elapsed t₀ a.now) (ht : Timed t₀ (as ++ bs)) (hlt : n < 2 ^ 63) :
    ∃ m, (T.after hz as).Sound t₀ m ∧ m < 2 ^ 63 ∧ Timed t₀ bs ∧
      ∀ b ∈ bs, m ≤ elapsed t₀ b.now := by
  induction as generalizing T n with
  | nil => exact ⟨n, h, hlt, ht, hn⟩
  | cons a as ih =>
    obtain ⟨ht, hnow, hnext⟩ := timed_cons ht
    exact ih (h.accept hz a (hn a (by simp)) hnow) hnext ht hnow

theorem SourceTable.Sound.after_init {as bs : List Attempt} (ht : Timed t₀ (as ++ bs)) :
    ∃ m, (SourceTable.init.after hz as).Sound t₀ m ∧ m < 2 ^ 63 ∧ Timed t₀ bs ∧
      ∀ b ∈ bs, m ≤ elapsed t₀ b.now :=
  Sound.after hz (Sound.init t₀) (fun _ _ => Nat.zero_le _) ht (by decide)

variable {hz} in
/-- A bound on what a source is allowed while its slot stays: a potential of the slot that pays
for every allowed attempt. -/
theorem allowedOf_le_potential {b : SockAddr} {cond : SourceTable → Attempt → Prop}
    {span : Attempt → Prop} (φ : Option AcceptSource → Nat)
    (hkeep : ∀ T a, cond T a → T.evicts hz a b = false)
    (hpay : ∀ T a m, T.Sound t₀ m → m ≤ elapsed t₀ a.now → elapsed t₀ a.now < 2 ^ 63 →
      span a → cond T a → wgSockaddrsSameHost a.addr b = true →
      (if (countSlot hz (T.slotOf b) a).1 then 1 else 0) +
        φ (some (countSlot hz (T.slotOf b) a).2) ≤ φ (T.slotOf b))
    {as : List Attempt} (h : T.Sound t₀ n) (hn : ∀ a ∈ as, n ≤ elapsed t₀ a.now)
    (ht : Timed t₀ as) (hlt : n < 2 ^ 63) (hspan : ∀ a ∈ as, span a)
    (hcond : Transition.Meets (fun T a => some (T.accept hz a)) cond T as) :
    allowedOf hz b T as ≤ φ (T.slotOf b) := by
  induction as generalizing T n with
  | nil => exact Nat.zero_le _
  | cons a as ih =>
    obtain ⟨ht, hnow, hnext⟩ := timed_cons ht
    obtain ⟨hcond, hmeets⟩ := hcond
    have hle := hn a (by simp)
    have hrest := ih (h.accept hz a hle hnow) hnext ht hnow
      (fun x hx => hspan x (by simp [hx])) (hmeets _ rfl)
    rw [allowedOf]
    cases hb : wgSockaddrsSameHost a.addr b with
    | true =>
      obtain ⟨hallows, hslot⟩ := accept_same hz a h hlt hb
      have hpaid := hpay T a n h hle hnow (hspan a (by simp)) hcond hb
      rw [hslot] at hrest
      rw [Bool.true_and, hallows]
      omega
    | false =>
      have hslot : (T.accept hz a).slotOf b = T.slotOf b := by
        apply (accept_other hz a h hlt hb).resolve_right
        rw [hkeep T a hcond]
        exact Bool.false_ne_true
      rw [hslot] at hrest
      simpa using hrest

/-- What is left of the burst of the current window. -/
def burstLeft (slot : Option AcceptSource) : Nat :=
  match slot with
  | none => wgTcpAcceptBurst
  | some s => wgTcpAcceptBurst - s.accepts

/-- What a source may still be allowed until `e`: the rest of its window, and one more window if
it can start by then. -/
def allowedUntil (hz : Hz) (t₀ : BitVec 64) (e : Nat) (slot : Option AcceptSource) : Nat :=
  match slot with
  | none => 2 * wgTcpAcceptBurst
  | some s =>
      if e < elapsed t₀ s.windowStarted + hz.val then wgTcpAcceptBurst - s.accepts
      else if e < elapsed t₀ s.windowStarted + 2 * hz.val then 2 * wgTcpAcceptBurst - s.accepts
      else 2 * wgTcpAcceptBurst

variable {hz}

theorem allowedUntil_le (e : Nat) (slot : Option AcceptSource) :
    allowedUntil hz t₀ e slot ≤ 2 * wgTcpAcceptBurst := by
  unfold allowedUntil
  split
  · exact le_rfl
  · split_ifs <;> omega

theorem slotOf_bounds {b : SockAddr} {s : AcceptSource} (h : T.Sound t₀ n)
    (hs : T.slotOf b = some s) :
    elapsed t₀ s.windowStarted ≤ n ∧ s.accepts ≤ wgTcpAcceptBurst := by
  obtain ⟨hmem, hmatch⟩ := matches_of_slotOf hs
  exact ⟨(h.clocked s hmem (occupied_of_matches hmatch)).1, h.accepts_le s hmem⟩

theorem allowedUntil_pays {a : Attempt} {b : SockAddr} {e : Nat} (h : T.Sound t₀ n)
    (hle : n ≤ elapsed t₀ a.now) (hnow : elapsed t₀ a.now < 2 ^ 63)
    (he : elapsed t₀ a.now ≤ e) (hspan : e ≤ elapsed t₀ a.now + hz.val) :
    (if (countSlot hz (T.slotOf b) a).1 then 1 else 0) +
      allowedUntil hz t₀ e (some (countSlot hz (T.slotOf b) a).2) ≤
        allowedUntil hz t₀ e (T.slotOf b) := by
  have hpos := hz.pos
  -- A window that starts now ends after one more burst.
  have hfresh : 1 + allowedUntil hz t₀ e (some (wgTcpAcceptSourceSet a.addr a.now)) ≤
      2 * wgTcpAcceptBurst := by
    show 1 + (if e < elapsed t₀ a.now + hz.val then wgTcpAcceptBurst - 1
      else if e < elapsed t₀ a.now + 2 * hz.val then 2 * wgTcpAcceptBurst - 1
      else 2 * wgTcpAcceptBurst) ≤ 2 * wgTcpAcceptBurst
    rw [wgTcpAcceptBurst]
    split_ifs <;> omega
  cases hslot : T.slotOf b with
  | none => exact hfresh
  | some s =>
    obtain ⟨hstart, haccepts⟩ := slotOf_bounds h hslot
    have hwindow := timeAfterEq_window_iff hz (hstart.trans hle) hnow
    rw [countSlot]
    rcases s.count_cases hz a.addr a.now with
      ⟨hexpired, hcount⟩ | ⟨hopen, hfull, hcount⟩ | ⟨hopen, hroom, hcount⟩
    · have hexpired := hwindow.mp hexpired
      rw [hcount]
      by_cases hlate : e < elapsed t₀ s.windowStarted + 2 * hz.val
      · -- The old window can have at most one successor, which starts now.
        have hnew : e < elapsed t₀ a.now + hz.val := by omega
        show 1 + (if e < elapsed t₀ a.now + hz.val then wgTcpAcceptBurst - 1 else _) ≤ _
        rw [if_pos hnew, allowedUntil, if_neg (by omega), if_pos hlate]
        rw [wgTcpAcceptBurst] at haccepts ⊢
        omega
      · have hold : allowedUntil hz t₀ e (some s) = 2 * wgTcpAcceptBurst := by
          rw [allowedUntil, if_neg (by omega), if_neg hlate]
        rw [hold]
        exact hfresh
    · rw [hcount]
      exact le_of_eq (Nat.zero_add _)
    · have hopen : ¬ elapsed t₀ s.windowStarted + hz.val ≤ elapsed t₀ a.now := by
        rw [← hwindow, hopen]
        exact Bool.false_ne_true
      rw [hcount]
      simp only [allowedUntil, if_true]
      split_ifs <;> omega

theorem burstLeft_pays {a : Attempt} {b : SockAddr}
    (hb : wgSockaddrsSameHost a.addr b = true) (hopens : T.opens hz a = false) :
    (if (countSlot hz (T.slotOf b) a).1 then 1 else 0) +
      burstLeft (some (countSlot hz (T.slotOf b) a).2) ≤ burstLeft (T.slotOf b) := by
  rw [opens, slotOf_congr hb] at hopens
  cases hslot : T.slotOf b with
  | none =>
    rw [hslot] at hopens
    cases hopens
  | some s =>
    rw [hslot] at hopens
    rw [countSlot]
    rcases s.count_cases hz a.addr a.now with
      ⟨hexpired, -⟩ | ⟨-, -, hcount⟩ | ⟨-, hroom, hcount⟩
    · cases hexpired.symm.trans hopens
    · rw [hcount]
      exact le_of_eq (Nat.zero_add _)
    · rw [hcount]
      simp only [burstLeft, if_true]
      omega

theorem countSlot_of_opens {a : Attempt} (h : T.opens hz a = true) :
    countSlot hz (T.slotOf a.addr) a = (true, wgTcpAcceptSourceSet a.addr a.now) := by
  unfold opens at h
  cases hslot : T.slotOf a.addr with
  | none => rfl
  | some s =>
    rw [hslot] at h
    rw [countSlot]
    rcases s.count_cases hz a.addr a.now with ⟨-, hcount⟩ | ⟨hopen, -⟩ | ⟨hopen, -⟩
    · exact hcount
    all_goals cases hopen.symm.trans h

variable (hz)

theorem allowedOf_append (b : SockAddr) (T : SourceTable) (as bs : List Attempt) :
    allowedOf hz b T (as ++ bs) = allowedOf hz b T as + allowedOf hz b (T.after hz as) bs := by
  induction as generalizing T with
  | nil => exact (Nat.zero_add _).symm
  | cons a as ih =>
    rw [List.cons_append, allowedOf, allowedOf, ih, Nat.add_assoc]
    rfl

/-- The accepts of a slot are the attempts allowed since the one that started its window. -/
theorem slot_history {as : List Attempt} (ht : Timed t₀ as) {b : SockAddr} {s : AcceptSource}
    (hs : (SourceTable.init.after hz as).slotOf b = some s) :
    ∃ early w mid, as = early ++ w :: mid ∧ wgSockaddrsSameHost w.addr b = true ∧
      s.windowStarted = w.now ∧
      allowedOf hz b (SourceTable.init.after hz early) (w :: mid) = s.accepts := by
  induction as using List.reverseRecOn generalizing s with
  | nil =>
    obtain ⟨hmem, hmatch⟩ := matches_of_slotOf hs
    have hfamily := occupied_of_matches hmatch
    rw [List.eq_of_mem_replicate hmem] at hfamily
    exact absurd rfl hfamily
  | append_singleton as a ih =>
    obtain ⟨m, hsound, hm, -, -⟩ := SourceTable.Sound.after_init hz ht
    have hstep : SourceTable.init.after hz (as ++ [a]) =
        (SourceTable.init.after hz as).accept hz a := after_append hz _ as [a]
    rw [hstep] at hs
    -- An earlier window goes on: the attempt is appended to its attempts.
    have hextend : ∀ s', (SourceTable.init.after hz as).slotOf b = some s' →
        s.windowStarted = s'.windowStarted →
        s.accepts = s'.accepts +
          (if wgSockaddrsSameHost a.addr b && (SourceTable.init.after hz as).allows hz a
            then 1 else 0) →
        ∃ early w mid, as ++ [a] = early ++ w :: mid ∧ wgSockaddrsSameHost w.addr b = true ∧
          s.windowStarted = w.now ∧
          allowedOf hz b (SourceTable.init.after hz early) (w :: mid) = s.accepts := by
      intro s' hs' hstart haccepts
      obtain ⟨early, w, mid, rfl, hw, hwstart, hcount⟩ := ih ht.left hs'
      refine ⟨early, w, mid ++ [a], by simp, hw, hstart.trans hwstart, ?_⟩
      rw [← List.cons_append, allowedOf_append, hcount, ← after_append, haccepts]
      rfl
    cases hb : wgSockaddrsSameHost a.addr b with
    | false =>
      rcases accept_other hz a hsound hm hb with hsame | hevicts
      · rw [hsame] at hs
        exact hextend s hs rfl (by simp [hb])
      · rw [evicts, hs] at hevicts
        simp at hevicts
    | true =>
      obtain ⟨hallows, hslot⟩ := accept_same hz a hsound hm hb
      rw [hslot, Option.some.injEq] at hs
      -- A new window starts with the attempt itself.
      have hnew : s = wgTcpAcceptSourceSet a.addr a.now →
          (SourceTable.init.after hz as).allows hz a = true →
          ∃ early w mid, as ++ [a] = early ++ w :: mid ∧ wgSockaddrsSameHost w.addr b = true ∧
            s.windowStarted = w.now ∧
            allowedOf hz b (SourceTable.init.after hz early) (w :: mid) = s.accepts := by
        intro hset hallowed
        refine ⟨as, a, [], rfl, hb, by rw [hset]; rfl, ?_⟩
        rw [allowedOf, allowedOf, hb, hallowed, hset]
        rfl
      cases hprevSlot : (SourceTable.init.after hz as).slotOf b with
      | none =>
        rw [hprevSlot] at hs hallows
        exact hnew hs.symm hallows
      | some s' =>
        rw [hprevSlot, countSlot] at hs hallows
        rcases s'.count_cases hz a.addr a.now with
          ⟨-, hcount⟩ | ⟨-, -, hcount⟩ | ⟨-, -, hcount⟩
        · rw [hcount] at hs hallows
          exact hnew hs.symm hallows
        all_goals
          rw [hcount] at hs hallows
          exact hextend s' hprevSlot (by rw [← hs]) (by rw [← hs, hallows, hb]; rfl)

theorem occupied_history {as : List Attempt} (ht : Timed t₀ as) {s : AcceptSource}
    (hs : s ∈ (SourceTable.init.after hz as).slots) (hfamily : s.family ≠ .unspec) :
    ∃ a ∈ as, s.wgTcpAcceptSourceMatches a.addr = true := by
  induction as using List.reverseRecOn with
  | nil =>
    rw [List.eq_of_mem_replicate hs] at hfamily
    exact absurd rfl hfamily
  | append_singleton as a ih =>
    obtain ⟨m, hsound, hm, -, -⟩ := SourceTable.Sound.after_init hz ht
    obtain ⟨i, old, -, -, haccept, hrepl, -⟩ := attempt_cases hz a hsound hm
    have hstep : SourceTable.init.after hz (as ++ [a]) =
        (SourceTable.init.after hz as).accept hz a := after_append hz _ as [a]
    rw [hstep, haccept] at hs
    rcases mem_set_slots hs with rfl | hs
    · exact ⟨a, by simp, hrepl.matched⟩
    · obtain ⟨a', ha', hmatch⟩ := ih ht.left hs
      exact ⟨a', by simp [ha'], hmatch⟩

/-- A refused attempt finds a full window: the source was allowed a burst since it started. -/
theorem refused_spec {as : List Attempt} {a : Attempt} (ht : Timed t₀ (as ++ [a]))
    (hrefused : (SourceTable.init.after hz as).allows hz a = false) :
    ∃ early w mid s, as = early ++ w :: mid ∧ wgSockaddrsSameHost w.addr a.addr = true ∧
      (SourceTable.init.after hz as).slotOf a.addr = some s ∧ s.windowStarted = w.now ∧
      elapsed t₀ a.now < elapsed t₀ w.now + hz.val ∧
      allowedOf hz a.addr (SourceTable.init.after hz early) (w :: mid) = wgTcpAcceptBurst := by
  obtain ⟨m, hsound, hm, -, hnext⟩ := SourceTable.Sound.after_init hz ht
  rw [(accept_same hz a hsound hm (sameHost_refl _)).1] at hrefused
  cases hslot : (SourceTable.init.after hz as).slotOf a.addr with
  | none =>
    rw [hslot] at hrefused
    cases hrefused
  | some s =>
    rw [hslot, countSlot] at hrefused
    obtain ⟨hstart, haccepts⟩ := slotOf_bounds hsound hslot
    obtain ⟨early, w, mid, hsplit, hw, hwstart, hcount⟩ := slot_history hz ht.left hslot
    have hwindow := timeAfterEq_window_iff hz (hstart.trans (hnext a (by simp)))
      (ht.2 a (by simp))
    rcases s.count_cases hz a.addr a.now with
      ⟨-, hcase⟩ | ⟨hopen, hfull, -⟩ | ⟨-, -, hcase⟩
    · rw [hcase] at hrefused
      cases hrefused
    · refine ⟨early, w, mid, s, hsplit, hw, rfl, hwstart, ?_, ?_⟩
      · rw [← hwstart]
        apply Nat.lt_of_not_le
        rw [← hwindow, hopen]
        exact Bool.false_ne_true
      · rw [hcount]
        exact le_antisymm haccepts hfull
    · rw [hcase] at hrefused
      cases hrefused

/-- While the slot of a source stays, an interval as long as a window sees at most two bursts. -/
theorem allowedOf_interval {pre mid : List Attempt} (ht : Timed t₀ (pre ++ mid)) (b : SockAddr)
    (start : Nat)
    (hmid : ∀ a ∈ mid, start ≤ elapsed t₀ a.now ∧ elapsed t₀ a.now ≤ start + hz.val)
    (hkeep : Transition.Meets (fun T a => some (T.accept hz a))
      (fun T a => T.evicts hz a b = false) (SourceTable.init.after hz pre) mid) :
    allowedOf hz b (SourceTable.init.after hz pre) mid ≤ 2 * wgTcpAcceptBurst := by
  obtain ⟨m, hsound, hm, htmid, hnext⟩ := SourceTable.Sound.after_init hz ht
  have hle := allowedOf_le_potential (allowedUntil hz t₀ (start + hz.val)) (fun _ _ h => h)
    (fun T a m hT hle hnow hspan _ _ => allowedUntil_pays hT hle hnow hspan.2
      (Nat.add_le_add_right hspan.1 _))
    hsound hnext htmid hm hmid hkeep
  exact hle.trans (allowedUntil_le _ _)

/-- From the attempt that starts a window until the next one or the eviction of the slot, the
source is allowed at most one burst. -/
theorem allowedOf_window {early mid : List Attempt} {w : Attempt}
    (ht : Timed t₀ (early ++ w :: mid))
    (hopens : (SourceTable.init.after hz early).opens hz w = true)
    (hkeep : Transition.Meets (fun T a => some (T.accept hz a))
      (fun T a => T.evicts hz a w.addr = false ∧
        (wgSockaddrsSameHost a.addr w.addr = true → T.opens hz a = false))
      (SourceTable.init.after hz (early ++ [w])) mid) :
    allowedOf hz w.addr (SourceTable.init.after hz early) (w :: mid) ≤ wgTcpAcceptBurst := by
  obtain ⟨m, hsound, hm, -, -⟩ := SourceTable.Sound.after_init hz ht
  have hself := sameHost_refl w.addr
  obtain ⟨-, hslot⟩ := accept_same hz w hsound hm hself
  rw [countSlot_of_opens hopens] at hslot
  rw [show early ++ w :: mid = (early ++ [w]) ++ mid by simp] at ht
  obtain ⟨m', hsound', hm', htmid, hnext⟩ := SourceTable.Sound.after_init hz ht
  have hrest := allowedOf_le_potential burstLeft (fun _ _ h => h.1)
    (fun T a m _ _ _ _ hcond hb => burstLeft_pays hb (hcond.2 hb))
    hsound' hnext htmid hm' (fun _ _ => trivial) hkeep
  have hstep : SourceTable.init.after hz (early ++ [w]) =
      (SourceTable.init.after hz early).accept hz w := after_append hz _ early [w]
  rw [hstep, hslot] at hrest
  have hleft : burstLeft (some (wgTcpAcceptSourceSet w.addr w.now)) = 31 := rfl
  rw [hleft] at hrest
  rw [allowedOf, wgTcpAcceptBurst]
  split <;> omega

end Run

/-! ## The throttle -/

/-- What the throttle guarantees of a run of attempts from the empty table. -/
structure Throttled (hz : Hz) (t₀ : BitVec 64) (as : List Attempt) : Prop where
  /-- No two slots hold the same source. -/
  oneSlot : ∀ (i j : Nat) (s s' : AcceptSource),
    (SourceTable.init.after hz as).slots[i]? = some s →
    (SourceTable.init.after hz as).slots[j]? = some s' →
    ∀ a b, s.wgTcpAcceptSourceMatches a = true → s'.wgTcpAcceptSourceMatches b = true →
      wgSockaddrsSameHost a b = true → i = j
  /-- An occupied slot holds a source that has made an attempt. -/
  occupied : ∀ s ∈ (SourceTable.init.after hz as).slots, s.family ≠ .unspec →
    ∃ a ∈ as, s.wgTcpAcceptSourceMatches a.addr = true
  /-- From an attempt that starts a window on, as long as no other does and the slot stays. -/
  window : ∀ early w mid post, as = early ++ w :: mid ++ post →
    (SourceTable.init.after hz early).opens hz w = true →
    Transition.Meets (fun T a => some (T.accept hz a))
      (fun T a => T.evicts hz a w.addr = false ∧
        (wgSockaddrsSameHost a.addr w.addr = true → T.opens hz a = false))
      (SourceTable.init.after hz (early ++ [w])) mid →
    allowedOf hz w.addr (SourceTable.init.after hz early) (w :: mid) ≤ 32
  /-- The attempts of a time interval as long as a window, its ends included. -/
  interval : ∀ pre mid post b start, as = pre ++ mid ++ post →
    (∀ a ∈ mid, start ≤ elapsed t₀ a.now ∧ elapsed t₀ a.now ≤ start + hz.val) →
    Transition.Meets (fun T a => some (T.accept hz a)) (fun T a => T.evicts hz a b = false)
      (SourceTable.init.after hz pre) mid →
    allowedOf hz b (SourceTable.init.after hz pre) mid ≤ 64
  /-- A refused source was allowed 32 attempts since the attempt `w` that started its window. -/
  refused : ∀ pre a post, as = pre ++ a :: post →
    (SourceTable.init.after hz pre).allows hz a = false →
    ∃ early w mid s, pre = early ++ w :: mid ∧ wgSockaddrsSameHost w.addr a.addr = true ∧
      (SourceTable.init.after hz pre).slotOf a.addr = some s ∧ s.windowStarted = w.now ∧
      elapsed t₀ a.now < elapsed t₀ w.now + hz.val ∧
      allowedOf hz a.addr (SourceTable.init.after hz early) (w :: mid) = 32
  evicted : ∀ pre a post b, as = pre ++ a :: post →
    (SourceTable.init.after hz pre).evicts hz a b = true →
    (SourceTable.init.after hz pre).slots.length = 128 ∧
    (∀ s ∈ (SourceTable.init.after hz pre).slots,
      s.family ≠ .unspec ∧ s.wgTcpAcceptSourceMatches a.addr = false) ∧
    ∃ s, (SourceTable.init.after hz pre).slotOf b = some s ∧
      ∀ s' ∈ (SourceTable.init.after hz pre).slots,
        elapsed t₀ s.lastSeen ≤ elapsed t₀ s'.lastSeen

theorem acceptRate_throttled (hz : Hz) (t₀ : BitVec 64) (as : List Attempt)
    (ht : Timed t₀ as) :
    (∀ a b now, (wgTcpAcceptSourceSet a now).wgTcpAcceptSourceMatches b =
      wgSockaddrsSameHost a b) ∧ Throttled hz t₀ as := by
  refine ⟨matches_set, ?_, ?_, ?_, ?_, ?_, ?_⟩
  · intro i j s s' hs hs' a b ha hb hab
    have ht : Timed t₀ (as ++ []) := by rwa [List.append_nil]
    obtain ⟨m, hsound, -, -, -⟩ := SourceTable.Sound.after_init hz ht
    exact hsound.unique i j s s' hs hs' b (by rwa [← matches_congr hab]) hb
  · intro s hs hfamily
    exact occupied_history hz ht hs hfamily
  · rintro early w mid post rfl hopens hkeep
    exact allowedOf_window hz ht.left hopens hkeep
  · rintro pre mid post b start rfl hmid hkeep
    exact allowedOf_interval hz ht.left b start hmid hkeep
  · rintro pre a post rfl hrefused
    rw [show pre ++ a :: post = (pre ++ [a]) ++ post by simp] at ht
    exact refused_spec hz ht.left hrefused
  · rintro pre a post b rfl hevicts
    obtain ⟨m, hsound, hm, -, -⟩ := SourceTable.Sound.after_init hz ht
    exact ⟨SourceTable.size _, evicts_spec hz a hsound hm hevicts⟩

/-- Two attempts from one host across the wrap of jiffies. -/
def wrappingAttempts : List Attempt :=
  [⟨.inet 1000 0x0a000001, BitVec.allOnes 64⟩, ⟨.inet 2000 0x0a000001, 5⟩]

theorem acceptRate_throttled_wrapping :
    Timed (BitVec.allOnes 64) wrappingAttempts ∧
      Throttled ⟨100, by decide, by decide⟩ (BitVec.allOnes 64) wrappingAttempts := by
  have ht : Timed (BitVec.allOnes 64) wrappingAttempts := by
    constructor <;> simp [wrappingAttempts, elapsed]
  exact ⟨ht, (acceptRate_throttled ⟨100, by decide, by decide⟩ _ _ ht).2⟩

end Listener

end WgTcp
