import WgTcp.Tools.SyncConf

/-!
# A synchronized configuration

The request that `sync_conf` makes of a file is compared with the file itself,
which would replace all peers. Both leave the same device, the same peers by
their keys and the same owner of every prefix; the first keeps the peers that
were there before. Endpoints are not compared: a peer that is kept also keeps an
endpoint that its section does not mention.
-/

namespace WgTcp

namespace Tools

open AllowedIps Netlink Fragments WgDevice

variable {file runtime : List Wgpeer}

/-! ## Reset sections on a device that kept its peers -/

/-- A peer of the device as the tools read it. -/
def Wgpeer.Reads (r : Wgpeer) (p : PeerConf) : Prop :=
  r.hasPresharedKey = (p.presharedKey != 0) ∧
    r.persistentKeepaliveInterval = p.persistentKeepaliveInterval

theorem resetBy_eq (r s : Wgpeer) : resetBy r s =
    { s with
      hasPresharedKey := s.hasPresharedKey || r.hasPresharedKey
      presharedKey := if r.hasPresharedKey && !s.hasPresharedKey then 0 else s.presharedKey
      hasPersistentKeepaliveInterval :=
        s.hasPersistentKeepaliveInterval || r.persistentKeepaliveInterval != 0
      persistentKeepaliveInterval :=
        if r.persistentKeepaliveInterval != 0 && !s.hasPersistentKeepaliveInterval then 0
        else s.persistentKeepaliveInterval } := by
  obtain ⟨_, _, _, hasPsk, hasInterval, _⟩ := s
  unfold resetBy
  cases hasPsk <;> cases hasInterval <;> cases r.hasPresharedKey <;>
    cases r.persistentKeepaliveInterval != 0 <;> rfl

/-- A reset section leaves of a peer what it makes of a new one. -/
theorem PeerConf.set_resetBy {r : Wgpeer} {p : PeerConf} (h : r.Reads p) (s : Wgpeer) :
    p.set (resetBy r s) = PeerConf.set ⟨0, 0⟩ s := by
  obtain ⟨hpsk, hinterval⟩ := h
  simp only [resetBy_eq, PeerConf.set, PeerConf.mk.injEq]
  constructor
  · rw [hpsk]
    cases s.hasPresharedKey <;> by_cases hzero : p.presharedKey = 0#256 <;> simp [hzero]
  · rw [hinterval]
    cases s.hasPersistentKeepaliveInterval <;>
      by_cases hzero : p.persistentKeepaliveInterval = 0 <;> simp [hzero]

@[simp] theorem resetBy_publicKey (r s : Wgpeer) : (resetBy r s).publicKey = s.publicKey := by
  rw [resetBy_eq]

@[simp] theorem resetBy_removeMe (r s : Wgpeer) : (resetBy r s).removeMe = s.removeMe := by
  rw [resetBy_eq]

@[simp] theorem resetBy_replaceAllowedips (r s : Wgpeer) :
    (resetBy r s).replaceAllowedips = s.replaceAllowedips := by
  rw [resetBy_eq]

@[simp] theorem resetBy_allowedips (r s : Wgpeer) : (resetBy r s).allowedips = s.allowedips := by
  rw [resetBy_eq]

/-- What the configurations `C` and `C'` below say of the key `k`. -/
structure AheadAt (own : Option Key) (k : Key) (r : Option Wgpeer) (isDone : Prop)
    (p p' : Option PeerConf) : Prop where
  same : isDone → p = p'
  fresh : ¬ isDone → p' = none
  kept : ¬ isDone → own ≠ some k → Option.Rel Wgpeer.Reads r p
  self : own = some k → p = none ∧ p' = none

/-- What is owned by peers that were kept and not set yet is not owned on the other side. -/
def OwnedAhead (own : Option Key) (Q : Key → Option Wgpeer) (done : List Key) (O O' : Owners) :
    Prop :=
  ∀ f x, O f x = O' f x ∨
    O' f x = none ∧ ∃ k ∉ done, own ≠ some k ∧ (Q k).isSome ∧ O f x = some k

/-- The configuration `C` that began with the peers `Q` of the device, next to the configuration
`C'` that began without peers, when the sections with the keys `done` have been set. -/
structure Ahead (own : Option Key) (Q : Key → Option Wgpeer) (done : List Key) (C C' : Conf) :
    Prop where
  peers : ∀ k, AheadAt own k (Q k) (k ∈ done) (C.peers k) (C'.peers k)
  owner : OwnedAhead own Q done C.owner C'.owner

variable {own : Option Key} {Q : Key → Option Wgpeer} {done : List Key} {C C' : Conf}
  {O O' : Owners} {key : Key}

theorem OwnedAhead.grant (h : OwnedAhead own Q done O O') (n : Network) :
    OwnedAhead own Q done (O.grant key n) (O'.grant key n) := by
  intro f x
  by_cases hf : f = n.1
  · subst hf
    by_cases hx : x = (maskKey n.2.1 n.2.2, n.2.2)
    · exact .inl (by simp [Owners.grant, hx])
    · simpa [Owners.grant, hx] using h n.1 x
  · simpa [Owners.grant, hf] using h f x

theorem OwnedAhead.grants (h : OwnedAhead own Q done O O') (ns : List Network) :
    OwnedAhead own Q done (ns.foldl (Owners.grant key) O) (ns.foldl (Owners.grant key) O') := by
  induction ns generalizing O O' with
  | nil => exact h
  | cons n rest ih => exact ih (h.grant n)

theorem OwnedAhead.release (h : OwnedAhead own Q done O O') (key : Key) :
    OwnedAhead own Q (key :: done) (O.release key) (O'.release key) := by
  intro f x
  rcases h f x with hsame | ⟨hnone, k, hk, hown, hQ, howner⟩
  · exact .inl (by simp only [Owners.release, hsame])
  · by_cases hkey : k = key
    · subst hkey
      exact .inl (by simp [Owners.release, hnone, howner])
    · refine .inr ⟨by simp [Owners.release, hnone], k, by simp [hkey, hk], hown, hQ, ?_⟩
      simp [Owners.release, howner, hkey]

/-- The section of the peer `s`, and what it has become. -/
theorem Ahead.setPeer (h : Ahead own Q done C C') {s : Wgpeer} (hremove : s.removeMe = false)
    (hreplace : s.replaceAllowedips = true) :
    Ahead own Q (s.publicKey :: done)
      (C.setPeer own
        (if s.publicKey ∈ done then s else (Q s.publicKey).elim s (resetBy · s)))
      (C'.setPeer own s) := by
  have hat := h.peers s.publicKey
  by_cases hself : own = some s.publicKey
  · -- The key of the device is passed over on both sides.
    obtain ⟨hnone, hnone'⟩ := hat.self hself
    have hskip (t : Wgpeer) (hkey : t.publicKey = s.publicKey) (ht : t.removeMe = false) :
        C.setPeer own t = C := by
      simp [Conf.setPeer, ht, hkey, hnone, hself]
    have hskip' : C'.setPeer own s = C' := by simp [Conf.setPeer, hremove, hnone', hself]
    have hsection : C.setPeer own
        (if s.publicKey ∈ done then s else (Q s.publicKey).elim s (resetBy · s)) = C := by
      split
      · exact hskip s rfl hremove
      · cases Q s.publicKey with
        | none => exact hskip s rfl hremove
        | some r => exact hskip _ (resetBy_publicKey r s) ((resetBy_removeMe r s).trans hremove)
    rw [hsection, hskip']
    refine ⟨fun k => ?_, fun f x => ?_⟩
    · by_cases hkey : k = s.publicKey
      · subst hkey
        exact ⟨fun _ => hnone.trans hnone'.symm, fun _ => hnone', fun _ hne => absurd hself hne,
          hat.self⟩
      · simpa [hkey] using h.peers k
    · rcases h.owner f x with hsame | ⟨hC', k, hk, hown, hQ, howner⟩
      · exact .inl hsame
      · refine .inr ⟨hC', k, ?_, hown, hQ, howner⟩
        rintro (_ | ⟨_, hmem⟩)
        · exact hown hself
        · exact hk hmem
  · -- Both sides configure the peer, with the same result.
    obtain ⟨v, hC, hC'⟩ : ∃ v, (C.setPeer own
          (if s.publicKey ∈ done then s else (Q s.publicKey).elim s (resetBy · s))) =
        ⟨Function.update C.peers s.publicKey (some v),
          (s.allowedips.filterMap Wgallowedip.network).foldl (Owners.grant s.publicKey)
            (C.owner.release s.publicKey)⟩ ∧
        C'.setPeer own s = ⟨Function.update C'.peers s.publicKey (some v),
          (s.allowedips.filterMap Wgallowedip.network).foldl (Owners.grant s.publicKey)
            (C'.owner.release s.publicKey)⟩ := by
      by_cases hdone : s.publicKey ∈ done
      · rw [if_pos hdone]
        have hsame := hat.same hdone
        cases hp : C'.peers s.publicKey with
        | none =>
          rw [hp] at hsame
          refine ⟨PeerConf.set ⟨0, 0⟩ s, ?_, ?_⟩ <;>
            simp [Conf.setPeer, Conf.configure, hremove, hreplace, hself, hp, hsame]
        | some p =>
          rw [hp] at hsame
          refine ⟨p.set s, ?_, ?_⟩ <;>
            simp [Conf.setPeer, Conf.configure, hremove, hreplace, hp, hsame]
      · rw [if_neg hdone]
        refine ⟨PeerConf.set ⟨0, 0⟩ s, ?_, ?_⟩
        · have hkept := hat.kept hdone hself
          cases hp : C.peers s.publicKey with
          | none =>
            rw [hp] at hkept
            generalize Q s.publicKey = q at hkept ⊢
            cases hkept
            simp [Conf.setPeer, Conf.configure, hremove, hreplace, hself, hp]
          | some p =>
            rw [hp] at hkept
            generalize Q s.publicKey = q at hkept ⊢
            cases hkept with
            | some hreads =>
              simp [Conf.setPeer, Conf.configure, hremove, hreplace, hp,
                PeerConf.set_resetBy hreads s]
        · simp [Conf.setPeer, Conf.configure, hremove, hreplace, hself, hat.fresh hdone]
    rw [hC, hC']
    refine ⟨fun k => ?_, (h.owner.release s.publicKey).grants _⟩
    by_cases hkey : k = s.publicKey
    · subst hkey
      refine ⟨fun _ => by simp, fun hne => absurd List.mem_cons_self hne,
        fun hne => absurd List.mem_cons_self hne, fun hk => absurd hk hself⟩
    · simpa [hkey] using h.peers k

/-- The sections of a file and the reset ones. -/
theorem Ahead.setPeers (h : Ahead own Q done C C')
    (hfile : ∀ s ∈ file, s.removeMe = false ∧ s.replaceAllowedips = true) :
    Ahead own Q ((file.map Wgpeer.publicKey).reverse ++ done)
      ((resetFirsts Q done file).foldl (Conf.setPeer own) C)
      (file.foldl (Conf.setPeer own) C') := by
  induction file generalizing done C C' with
  | nil => exact h
  | cons s rest ih =>
    obtain ⟨hremove, hreplace⟩ := hfile s List.mem_cons_self
    have hrest := ih (h.setPeer hremove hreplace) fun t ht => hfile t (List.mem_cons_of_mem _ ht)
    simpa [resetFirsts] using hrest

/-- Who owns a prefix is configured. -/
def Conf.Live (C : Conf) : Prop := ∀ f x k, C.owner f x = some k → (C.peers k).isSome

theorem Conf.Live.remove (h : C.Live) (key : Key) : (C.remove key).Live := by
  intro f x k hk
  simp only [Conf.remove, Owners.release] at hk ⊢
  split at hk
  · cases hk
  · next hne =>
    have hkey : k ≠ key := by
      rintro rfl
      exact hne hk
    simpa [hkey] using h f x k hk

variable {d d' : WgDevice} {id : PeerId}

variable {t : SyncState}

/-- The configuration behind the sections of a file on a device without peers. -/
def Wgdevice.conf (file : Wgdevice) (own : Option Key) : Conf :=
  file.peers.foldl (Conf.setPeer own) Conf.empty

variable {env : Env} {d₂ : WgDevice}

/-- Two devices with the same configuration, of which the first has kept peers of the device
before. -/
structure Agree (before d₁ d₂ : WgDevice) : Prop where
  attrs : d₁.attrs = d₂.attrs
  shown : ∃ C R₁ R₂, Shows d₁ R₁ C ∧ Shows d₂ R₂ C
  kept : ∀ id key p₁, before.Names id key → d₁.lookupPeer key = some p₁ → p₁.id = id

end Tools

end WgTcp
