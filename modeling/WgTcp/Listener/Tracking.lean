import WgTcp.Foundation.FirstMatch
import WgTcp.Listener.AcceptThrottle
import WgTcp.Peer.State

/-!
# Accepted connections before authentication

`tcp_connection_list` holds the accepted sockets that no configured peer owns
yet, each with its provisional peer. Two counters of the device go with it: the
entries that still count against admission, and all entries. The functions below
are the sections under `tcp_connection_list_lock`; `Tracking.Accounted` says what
the list and its counters agree on whenever the lock is free.
-/

namespace WgTcp

namespace Listener

open Netlink (SockAddr ipv6LinkLocal)
open FirstMatch

/-! ## The list and its counters -/

/-- A provisional peer, as far as the list looks at it. -/
structure TempPeer where
  id : Nat
  isDead : Bool
deriving Repr, DecidableEq

/-- `struct wg_tcp_socket_list_entry`. Times are `ktime_get()`, in nanoseconds. -/
structure ListEntry where
  tcpSocket : Option SockId
  /-- `none` for NULL and for an error pointer. -/
  tempPeer : Option TempPeer
  srcAddr : SockAddr
  createdAt : Nat
  timestamp : Nat
  connectionId : Nat
  admissionCounted : Bool
  initializing : Bool
  authenticated : Bool
deriving Repr, DecidableEq

structure Tracking where
  /-- `tcp_connection_list`. -/
  list : List ListEntry
  /-- `tcp_pending_connections`. -/
  pending : Nat
  /-- `tcp_tracked_connections`. -/
  tracked : Nat
  /-- `tcp_connection_sequence`. -/
  sequence : Nat
  /-- A `WARN_ON_ONCE` about one of the counters was reached. -/
  warned : Bool
deriving Repr, DecidableEq

def Tracking.empty : Tracking := ⟨[], 0, 0, 0, false⟩

def wgTcpMaxPendingConnections : Nat := 128
def wgTcpMaxTrackedConnections : Nat := 1024
def wgTcpMaxPendingPerSource : Nat := 8
def wgTcpAuthIdleTimeoutMs : Int := 5000
def wgTcpAuthMaxLifetimeMs : Int := 30000

def ktimeMsDelta (later earlier : Nat) : Int := ((later : Int) - earlier).tdiv 1000000

/-- There is a provisional peer, and it is not dead. -/
def ListEntry.live (e : ListEntry) : Bool := e.tempPeer.any fun peer => !peer.isDead

/-- `WRITE_ONCE(temp_peer->is_dead, true)`. -/
def ListEntry.kill (e : ListEntry) : ListEntry :=
  { e with tempPeer := e.tempPeer.map fun peer => { peer with isDead := true } }

def ListEntry.ownedBy (e : ListEntry) (id : Nat) : Bool := e.tempPeer.any fun peer => peer.id == id

/-- An entry of the source that still counts against admission. -/
def ListEntry.countedFrom (addr : SockAddr) (e : ListEntry) : Bool :=
  e.admissionCounted && wgSockaddrsSameHost addr e.srcAddr

/-! ## Sections -/

def wgTcpPendingFromSourceLocked (addr : SockAddr) (t : Tracking) : Nat :=
  t.list.countP (ListEntry.countedFrom addr)

def wgTcpSourceAtCapacity (addr : SockAddr) (t : Tracking) : Bool :=
  decide (wgTcpMaxPendingPerSource ≤ wgTcpPendingFromSourceLocked addr t)

def wgTcpReleaseAdmissionLocked (e : ListEntry) (t : Tracking) : ListEntry × Tracking :=
  if !e.admissionCounted then (e, t)
  else
    let e := { e with admissionCounted := false }
    if t.pending = 0 then (e, { t with warned := true })
    else (e, { t with pending := t.pending - 1 })

/-- The decrement of `tcp_tracked_connections` at an unlink. -/
def Tracking.untrack (t : Tracking) : Tracking :=
  if t.tracked = 0 then { t with tracked := 0, warned := true }
  else { t with tracked := t.tracked - 1 }

/-- `atomic64_inc_return(&wg->tcp_connection_sequence)` and the entry that gets the number. -/
def wgNewListEntry (s peer : Nat) (addr : SockAddr) (now : Nat) (t : Tracking) :
    ListEntry × Tracking :=
  ({ tcpSocket := some s
     tempPeer := some ⟨peer, false⟩
     srcAddr := addr
     createdAt := now
     timestamp := now
     connectionId := t.sequence + 1
     admissionCounted := true
     initializing := true
     authenticated := false },
   { t with sequence := t.sequence + 1 })

/-- The locked section of `wg_add_tcp_socket_to_list`; `none` for `-ENOSPC`. -/
def wgAddTcpSocketToList (scheduled : Bool) (e : ListEntry) (t : Tracking) : Option Tracking :=
  if !scheduled ∨ wgTcpMaxTrackedConnections ≤ t.tracked ∨
      wgTcpMaxPendingConnections ≤ t.pending ∨
      wgTcpMaxPendingPerSource ≤ wgTcpPendingFromSourceLocked e.srcAddr t then none
  else
    some { t with list := t.list ++ [e], pending := t.pending + 1, tracked := t.tracked + 1 }

/-- The locked section of `wg_finish_tcp_connection_init`, with its `cleanup`. -/
def wgFinishTcpConnectionInit (established : Bool) (s : SockId) (t : Tracking) :
    Bool × Tracking :=
  match firstMatch (fun e => e.tcpSocket == some s) t.list with
  | none => (false, t)
  | some (before, e, behind) =>
      let cleanup := !established || !e.live
      let e := if cleanup then e.kill else e
      (cleanup, { t with list := before ++ { e with initializing := false } :: behind })

def wgTouchTcpConnection (now peer : Nat) (t : Tracking) : Tracking :=
  match firstMatch (fun e => e.ownedBy peer) t.list with
  | none => t
  | some (before, e, behind) =>
      { t with list := before ++ { e with timestamp := now } :: behind }

/-- What a sweep passes over, at the time `now`. -/
def ListEntry.kept (now : Nat) (e : ListEntry) : Bool :=
  e.live && (e.authenticated ||
    (decide (ktimeMsDelta now e.timestamp < wgTcpAuthIdleTimeoutMs) &&
      decide (ktimeMsDelta now e.createdAt < wgTcpAuthMaxLifetimeMs)))

/-- Whether the walk of `wg_claim_tcp_connection` stops at an entry. -/
def ListEntry.claimable (now : Nat) (pendingSocket : Option SockId) (cleanupOnly : Bool)
    (e : ListEntry) : Bool :=
  if pendingSocket.isSome && e.tcpSocket != pendingSocket then false
  else if cleanupOnly && e.initializing then false
  else if cleanupOnly && e.kept now then false
  else true

def wgClaimTcpConnection (now : Nat) (pendingSocket : Option SockId) (cleanupOnly : Bool)
    (t : Tracking) : Option ListEntry × Tracking :=
  match firstMatch (ListEntry.claimable now pendingSocket cleanupOnly) t.list with
  | none => (none, t)
  | some (before, e, behind) =>
      let (e, t) := wgTcpReleaseAdmissionLocked e t
      (some e, { t.untrack with list := before ++ behind })

/-- The entry after `authenticated`, the released admission and the new timestamp. -/
def authenticate (now : Nat) (e : ListEntry) (t : Tracking) : ListEntry × Tracking :=
  let (e, t) := wgTcpReleaseAdmissionLocked { e with authenticated := true } t
  ({ e with timestamp := now }, t)

def wgTcpMarkConnectionAuthenticated (now connectionId : Nat) (t : Tracking) : Tracking :=
  if connectionId = 0 then t
  else
    match firstMatch (fun e => e.connectionId == connectionId) t.list with
    | none => t
    | some (before, e, behind) =>
        let (e, t) := authenticate now e t
        { t with list := before ++ e :: behind }

/-- The locked section of `wg_tcp_promote_authenticated_carrier`: the entry is authenticated, and
unlinked unless its number is stale or its initialisation has not finished. -/
def claimAuthenticated (now connectionId : Nat) (stale : Bool) (t : Tracking) :
    Option ListEntry × Tracking :=
  match firstMatch (fun e => e.connectionId == connectionId) t.list with
  | none => (none, t)
  | some (before, e, behind) =>
      let (e, t) := authenticate now e t
      if !stale && !e.initializing then (some e, { t.untrack with list := before ++ behind })
      else (none, { t with list := before ++ e :: behind })

/-- A callback or worker of a provisional peer finds its connection closed. -/
def Tracking.kill (peer : Nat) (t : Tracking) : Tracking :=
  { t with list := t.list.map fun e => if e.ownedBy peer then e.kill else e }

/-! ## What list and counters agree on -/

structure Tracking.Accounted (t : Tracking) : Prop where
  pending : t.pending = t.list.countP (·.admissionCounted)
  tracked : t.tracked = t.list.length
  released : ∀ e ∈ t.list, e.authenticated = true → e.admissionCounted = false
  distinct : (t.list.map (·.connectionId)).Nodup
  numbered : ∀ e ∈ t.list, 0 < e.connectionId ∧ e.connectionId ≤ t.sequence
  pending_le : t.pending ≤ wgTcpMaxPendingConnections
  tracked_le : t.tracked ≤ wgTcpMaxTrackedConnections
  source_le : ∀ addr, t.list.countP (ListEntry.countedFrom addr) ≤ wgTcpMaxPendingPerSource
  unwarned : t.warned = false

theorem accounted_empty : Tracking.empty.Accounted where
  pending := rfl
  tracked := rfl
  released := by simp [Tracking.empty]
  distinct := List.nodup_nil
  numbered := by simp [Tracking.empty]
  pending_le := by decide
  tracked_le := by decide
  source_le := by simp [Tracking.empty]
  unwarned := rfl

section Accounted

variable {t : Tracking} {e e' : ListEntry} {before behind : List ListEntry}

/-- Two sources on the host of a third are on one host. -/
theorem wgSockaddrsSameHost_trans {a b c : SockAddr} (hab : wgSockaddrsSameHost a b = true)
    (hac : wgSockaddrsSameHost a c = true) : wgSockaddrsSameHost b c = true := by
  cases a with
  | inet _ a =>
    cases b <;> cases c <;> simp_all [wgSockaddrsSameHost]
  | inet6 _ a scope =>
    cases b with
    | inet => cases hab
    | inet6 _ b scope' =>
      cases c with
      | inet => cases hac
      | inet6 _ c scope'' =>
        simp only [wgSockaddrsSameHost, Bool.and_eq_true, beq_iff_eq, Bool.or_eq_true,
          Bool.not_eq_true'] at hab hac ⊢
        obtain ⟨rfl, hb⟩ := hab
        obtain ⟨rfl, hc⟩ := hac
        refine ⟨rfl, ?_⟩
        rcases hb with hb | rfl
        · exact .inl hb
        · exact hc

theorem countP_replace (p : ListEntry → Bool) (before behind : List ListEntry) (e : ListEntry) :
    (before ++ e :: behind).countP p =
      before.countP p + (p e).toNat + behind.countP p := by
  rw [List.countP_append, List.countP_cons]
  cases p e with
  | false => simp
  | true =>
    simp
    omega

/-- An entry replaced by one with the same number and source that counts no more than it did. -/
theorem Tracking.Accounted.replace (h : t.Accounted) (hlist : t.list = before ++ e :: behind)
    (hid : e'.connectionId = e.connectionId) (hsrc : e'.srcAddr = e.srcAddr)
    (hcounted : e'.admissionCounted.toNat ≤ e.admissionCounted.toNat)
    (hauth : e'.authenticated = true → e'.admissionCounted = false) :
    Tracking.Accounted { t with
      list := before ++ e' :: behind
      pending := t.pending - (e.admissionCounted.toNat - e'.admissionCounted.toNat) } := by
  have hpending := h.pending
  rw [hlist, countP_replace] at hpending
  constructor
  case pending =>
    simp only [countP_replace]
    omega
  case tracked => simpa [hlist] using h.tracked
  case released =>
    intro f hf
    rcases List.mem_append.mp hf with hf | hf
    · exact h.released f (by simp [hlist, hf])
    · rcases List.mem_cons.mp hf with rfl | hf
      · exact hauth
      · exact h.released f (by simp [hlist, hf])
  case distinct =>
    have := h.distinct
    rw [hlist] at this
    simpa [hid] using this
  case numbered =>
    intro f hf
    rcases List.mem_append.mp hf with hf | hf
    · exact h.numbered f (by simp [hlist, hf])
    · rcases List.mem_cons.mp hf with rfl | hf
      · rw [hid]
        exact h.numbered e (by simp [hlist])
      · exact h.numbered f (by simp [hlist, hf])
  case pending_le => exact (Nat.sub_le _ _).trans h.pending_le
  case tracked_le => exact h.tracked_le
  case source_le =>
    intro addr
    have hle := h.source_le addr
    have hentry : (e'.countedFrom addr).toNat ≤ (e.countedFrom addr).toNat := by
      unfold ListEntry.countedFrom
      rw [hsrc]
      cases he : e'.admissionCounted with
      | false => simp
      | true =>
        have : e.admissionCounted = true := by
          cases he' : e.admissionCounted <;> simp_all
        rw [this]
    simp only [hlist, countP_replace] at hle ⊢
    omega
  case unwarned => exact h.unwarned

/-- An entry unlinked. -/
theorem Tracking.Accounted.unlink (h : t.Accounted) (hlist : t.list = before ++ e :: behind) :
    Tracking.Accounted { t with
      list := before ++ behind
      pending := t.pending - e.admissionCounted.toNat
      tracked := t.tracked - 1 } := by
  have hsub : (before ++ behind).Sublist t.list := by
    rw [hlist]
    exact List.Sublist.append_left (List.sublist_cons_self e behind) before
  have hpending := h.pending
  rw [hlist, countP_replace] at hpending
  constructor
  case pending =>
    simp only [List.countP_append]
    omega
  case tracked =>
    have := h.tracked
    simp only [hlist, List.length_append, List.length_cons] at this ⊢
    omega
  case released => exact fun f hf => h.released f (hsub.subset hf)
  case distinct => exact h.distinct.sublist (hsub.map _)
  case numbered => exact fun f hf => h.numbered f (hsub.subset hf)
  case pending_le => exact (Nat.sub_le _ _).trans h.pending_le
  case tracked_le => exact (Nat.sub_le _ _).trans h.tracked_le
  case source_le => exact fun addr => (hsub.countP_le).trans (h.source_le addr)
  case unwarned => exact h.unwarned

theorem release_eq (h : e.admissionCounted = true → t.pending ≠ 0) :
    wgTcpReleaseAdmissionLocked e t =
      ({ e with admissionCounted := false },
        { t with pending := t.pending - e.admissionCounted.toNat }) := by
  unfold wgTcpReleaseAdmissionLocked
  cases hc : e.admissionCounted with
  | false =>
    obtain ⟨⟩ := e
    cases hc
    rfl
  | true =>
    simp only [Bool.not_true, Bool.false_eq_true, if_false, if_neg (h hc)]
    rfl

theorem Tracking.Accounted.pending_ne_zero (h : t.Accounted)
    (hlist : t.list = before ++ e :: behind) (hc : e.admissionCounted = true) : t.pending ≠ 0 := by
  rw [h.pending, hlist, countP_replace, hc]
  simp

theorem Tracking.Accounted.tracked_ne_zero (h : t.Accounted)
    (hlist : t.list = before ++ e :: behind) : t.tracked ≠ 0 := by
  rw [h.tracked, hlist]
  simp

/-- No counter is decremented at zero. -/
theorem Tracking.Accounted.claim (h : t.Accounted) (now : Nat) (pendingSocket : Option SockId)
    (cleanupOnly : Bool) : (wgClaimTcpConnection now pendingSocket cleanupOnly t).2.Accounted := by
  unfold wgClaimTcpConnection
  split
  · exact h
  · rename_i before e behind hfound
    obtain ⟨hlist, -, -⟩ := firstMatch_eq_some hfound
    rw [release_eq (h.pending_ne_zero hlist)]
    simp only [Tracking.untrack, if_neg (h.tracked_ne_zero hlist)]
    exact h.unlink hlist

theorem authenticate_eq (h : t.Accounted) (hlist : t.list = before ++ e :: behind) (now : Nat) :
    authenticate now e t =
      ({ e with authenticated := true, admissionCounted := false, timestamp := now },
        { t with pending := t.pending - e.admissionCounted.toNat }) := by
  have hpending : e.admissionCounted = true → t.pending ≠ 0 := h.pending_ne_zero hlist
  have hrelease := @release_eq t { e with authenticated := true } hpending
  unfold authenticate
  rw [hrelease]

theorem Tracking.Accounted.authenticate (h : t.Accounted) (hlist : t.list = before ++ e :: behind)
    (now : Nat) : Tracking.Accounted { t with
      list := before ++
        { e with authenticated := true, admissionCounted := false, timestamp := now } :: behind
      pending := t.pending - e.admissionCounted.toNat } :=
  h.replace hlist rfl rfl (Nat.zero_le _) fun _ => rfl

theorem Tracking.Accounted.mark (h : t.Accounted) (now connectionId : Nat) :
    (wgTcpMarkConnectionAuthenticated now connectionId t).Accounted := by
  unfold wgTcpMarkConnectionAuthenticated
  split
  · exact h
  split
  · exact h
  · rename_i before e behind hfound
    obtain ⟨hlist, -, -⟩ := firstMatch_eq_some hfound
    rw [authenticate_eq h hlist]
    exact h.authenticate hlist now

theorem Tracking.Accounted.claimAuthenticated (h : t.Accounted) (now connectionId : Nat)
    (stale : Bool) : (claimAuthenticated now connectionId stale t).2.Accounted := by
  unfold Listener.claimAuthenticated
  split
  · exact h
  · rename_i before e behind hfound
    obtain ⟨hlist, -, -⟩ := firstMatch_eq_some hfound
    rw [authenticate_eq h hlist]
    simp only
    split
    · simp only [Tracking.untrack, if_neg (h.tracked_ne_zero hlist)]
      exact h.unlink hlist
    · exact h.authenticate hlist now

/-- An entry whose number and admission stay as they are. -/
theorem Tracking.Accounted.edit (h : t.Accounted) (hlist : t.list = before ++ e :: behind)
    (hid : e'.connectionId = e.connectionId) (hsrc : e'.srcAddr = e.srcAddr)
    (hcounted : e'.admissionCounted = e.admissionCounted)
    (hauth : e'.authenticated = e.authenticated) :
    Tracking.Accounted { t with list := before ++ e' :: behind } := by
  have hnew := h.replace hlist hid hsrc (by rw [hcounted]) fun ha => by
    rw [hcounted]
    exact h.released e (by simp [hlist]) (hauth ▸ ha)
  simpa [hcounted] using hnew

theorem Tracking.Accounted.finishInit (h : t.Accounted) (established : Bool) (s : SockId) :
    (wgFinishTcpConnectionInit established s t).2.Accounted := by
  unfold wgFinishTcpConnectionInit
  split
  · exact h
  · rename_i before e behind hfound
    obtain ⟨hlist, -, -⟩ := firstMatch_eq_some hfound
    apply h.edit hlist
    all_goals simp only; split <;> rfl

theorem Tracking.Accounted.touch (h : t.Accounted) (now peer : Nat) :
    (wgTouchTcpConnection now peer t).Accounted := by
  unfold wgTouchTcpConnection
  split
  · exact h
  · rename_i before e behind hfound
    obtain ⟨hlist, -, -⟩ := firstMatch_eq_some hfound
    exact h.edit hlist rfl rfl rfl rfl

theorem Tracking.Accounted.kill (h : t.Accounted) (peer : Nat) : (t.kill peer).Accounted := by
  have hkeep {β : Type} (f : ListEntry → β) (hf : ∀ e : ListEntry, f e.kill = f e)
      (e : ListEntry) : f (if e.ownedBy peer then e.kill else e) = f e := by
    split
    · exact hf e
    · rfl
  have hcount (p : ListEntry → Bool) (hp : ∀ e : ListEntry, p e.kill = p e) :
      (t.kill peer).list.countP p = t.list.countP p := by
    rw [Tracking.kill, List.countP_map]
    exact List.countP_congr fun e _ => by simp [hkeep p hp]
  constructor
  case pending => rw [hcount _ fun _ => rfl]; exact h.pending
  case tracked => simpa [Tracking.kill] using h.tracked
  case released =>
    intro f hf
    obtain ⟨e, he, rfl⟩ := List.mem_map.mp hf
    rw [hkeep (·.authenticated) fun _ => rfl, hkeep (·.admissionCounted) fun _ => rfl]
    exact h.released e he
  case distinct =>
    have : (t.kill peer).list.map (·.connectionId) = t.list.map (·.connectionId) := by
      rw [Tracking.kill, List.map_map]
      exact List.map_congr_left fun e _ => hkeep (·.connectionId) (fun _ => rfl) e
    rw [this]
    exact h.distinct
  case numbered =>
    intro f hf
    obtain ⟨e, he, rfl⟩ := List.mem_map.mp hf
    rw [hkeep (·.connectionId) fun _ => rfl]
    exact h.numbered e he
  case pending_le => exact h.pending_le
  case tracked_le => exact h.tracked_le
  case source_le =>
    intro addr
    rw [hcount _ fun _ => rfl]
    exact h.source_le addr
  case unwarned => exact h.unwarned

/-- A number that is not on the list, for an entry that counts. -/
theorem Tracking.Accounted.add {t' : Tracking} (h : t.Accounted) {scheduled : Bool}
    (hcounted : e.admissionCounted = true) (hauth : e.authenticated = false)
    (hid : 0 < e.connectionId ∧ e.connectionId ≤ t.sequence)
    (hnew : ∀ f ∈ t.list, f.connectionId ≠ e.connectionId)
    (hadd : wgAddTcpSocketToList scheduled e t = some t') : t'.Accounted := by
  unfold wgAddTcpSocketToList at hadd
  split at hadd
  · cases hadd
  rename_i hroom
  simp only [not_or, Nat.not_le, Bool.not_eq_true, Bool.not_eq_false'] at hroom
  obtain ⟨-, htracked, hpending, hsource⟩ := hroom
  cases hadd
  constructor
  case pending => simp [List.countP_append, hcounted, h.pending]
  case tracked => simp [h.tracked]
  case released =>
    intro f hf ha
    rcases List.mem_append.mp hf with hf | hf
    · exact h.released f hf ha
    · rw [List.mem_singleton.mp hf, hauth] at ha
      cases ha
  case distinct =>
    rw [List.map_append, List.nodup_append]
    refine ⟨h.distinct, List.nodup_singleton _, ?_⟩
    intro a ha b hb
    obtain ⟨f, hf, rfl⟩ := List.mem_map.mp ha
    rw [List.map_singleton, List.mem_singleton] at hb
    rw [hb]
    exact hnew f hf
  case numbered =>
    intro f hf
    rcases List.mem_append.mp hf with hf | hf
    · exact h.numbered f hf
    · rw [List.mem_singleton.mp hf]
      exact hid
  case pending_le => exact hpending
  case tracked_le => exact htracked
  case source_le =>
    intro addr
    simp only [List.countP_append, List.countP_singleton]
    by_cases hsame : wgSockaddrsSameHost addr e.srcAddr = true
    · -- The entries of `addr` are those of the new entry's source.
      have hle : t.list.countP (ListEntry.countedFrom addr) ≤
          wgTcpPendingFromSourceLocked e.srcAddr t := by
        apply List.countP_mono_left
        intro f _ hf
        simp only [ListEntry.countedFrom, Bool.and_eq_true] at hf ⊢
        exact ⟨hf.1, wgSockaddrsSameHost_trans hsame hf.2⟩
      split <;> omega
    · rw [if_neg (by simp [ListEntry.countedFrom, hsame])]
      exact h.source_le addr
  case unwarned => exact h.unwarned

end Accounted

end Listener

end WgTcp
