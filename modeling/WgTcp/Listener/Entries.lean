import WgTcp.Listener.Sweep

/-!
# Callbacks under way

A callback or worker of a provisional peer that has seen `tcp_cleanup_scheduled`
is about to queue the sweep. The entry of its peer is then still somewhere: on
the list, or with one thread that waits for the callback before it destroys the
entry (`Kicked`).
-/

namespace WgTcp

namespace Listener

open FirstMatch
open Netlink (SockAddr)

/-! ## Provisional peers with a callback under way -/

/-- The provisional peer of an entry. -/
def ListEntry.owner (e : ListEntry) : Option Nat := e.tempPeer.map (·.id)

theorem ListEntry.ownedBy_iff {e : ListEntry} {peer : Nat} :
    e.ownedBy peer = true ↔ e.owner = some peer := by
  unfold ListEntry.ownedBy ListEntry.owner
  cases e.tempPeer <;> simp

theorem ListEntry.owner_kill (e : ListEntry) : e.kill.owner = e.owner := by
  unfold ListEntry.owner ListEntry.kill
  cases e.tempPeer <;> rfl

/-- A callback that is under way keeps the entry of its peer from being destroyed. -/
def Kicked (σ : State) : Prop := ∀ peer ∈ σ.kicks, ∃ e ∈ σ.entries, e.owner = some peer

/-- The entry is still somewhere, or nothing holds up its destruction. -/
def Kept (σ σ' : State) (e : ListEntry) : Prop :=
  (∃ e' ∈ σ'.entries, e'.owner = e.owner) ∨ σ.destroyable e = true

section Entries

variable {σ σ' : State} {e : ListEntry}

theorem mem_entries : e ∈ σ.entries ↔ e ∈ σ.tracking.list ∨ (∃ f, (σ.listener f).entry = some e) ∨
    σ.worker.entry = some e ∨ (∃ p ∈ σ.peers, p.promotion.entry = some e) ∨
    σ.control.entry = some e := by
  have hfamily : (∃ f, (σ.listener f).entry = some e) ↔
      σ.listener4.entry = some e ∨ σ.listener6.entry = some e := by
    constructor
    · rintro ⟨_ | _, h⟩
      · exact .inl h
      · exact .inr h
    · rintro (h | h)
      · exact ⟨.v4, h⟩
      · exact ⟨.v6, h⟩
  rw [hfamily]
  simp only [State.entries, List.mem_append, Option.mem_toList, List.mem_flatMap, or_assoc]

theorem Kicked.step (h : Kicked σ) (hkicks : ∀ peer ∈ σ'.kicks, peer ∈ σ.kicks)
    (hkept : ∀ e ∈ σ.entries, Kept σ σ' e) : Kicked σ' := by
  intro peer hpeer
  obtain ⟨e, he, howner⟩ := h peer (hkicks peer hpeer)
  rcases hkept e he with ⟨e', he', hsame⟩ | hdestroy
  · exact ⟨e', he', hsame.trans howner⟩
  · -- The entry waits for this callback.
    exfalso
    have hany : e.tempPeer.any (fun temp => σ.kicks.contains temp.id) = true := by
      unfold ListEntry.owner at howner
      cases htemp : e.tempPeer with
      | none => simp [htemp] at howner
      | some temp =>
        simp only [htemp, Option.map_some, Option.some.injEq] at howner
        simpa [howner] using hkicks peer hpeer
    simp only [State.destroyable, hany, Bool.not_true, Bool.false_and] at hdestroy
    cases hdestroy

theorem Kept.of_mem (h : e ∈ σ'.entries) : Kept σ σ' e := .inl ⟨e, h, rfl⟩

/-- Every place in which an entry can be. -/
theorem kept_of_places (hlist : ∀ e ∈ σ.tracking.list, Kept σ σ' e)
    (hlisteners : ∀ f e, (σ.listener f).entry = some e → Kept σ σ' e)
    (hworker : ∀ e, σ.worker.entry = some e → Kept σ σ' e)
    (hpeers : ∀ p ∈ σ.peers, ∀ e, p.promotion.entry = some e → Kept σ σ' e)
    (hcontrol : ∀ e, σ.control.entry = some e → Kept σ σ' e) : ∀ e ∈ σ.entries, Kept σ σ' e := by
  intro e he
  rcases mem_entries.mp he with he | ⟨f, he⟩ | he | ⟨p, hp, he⟩ | he
  · exact hlist e he
  · exact hlisteners f e he
  · exact hworker e he
  · exact hpeers p hp e he
  · exact hcontrol e he

/-! ### Sections -/

/-- The entries of a list that are still on it, or the one that was claimed. -/
def Carries (t t' : Tracking) (claimed : Option ListEntry) : Prop :=
  ∀ e ∈ t.list, (∃ e' ∈ t'.list, e'.owner = e.owner) ∨ ∃ e', claimed = some e' ∧ e'.owner = e.owner

theorem Carries.refl (t : Tracking) (claimed : Option ListEntry) : Carries t t claimed :=
  fun e he => .inl ⟨e, he, rfl⟩

variable {t t' : Tracking} {e' : ListEntry} {before behind : List ListEntry}

theorem Carries.replace (howner : e'.owner = e.owner) (hlist : t.list = before ++ e :: behind)
    (hlist' : t'.list = before ++ e' :: behind) : Carries t t' none := by
  intro f hf
  rw [hlist] at hf
  rcases List.mem_append.mp hf with hf | hf
  · exact .inl ⟨f, by simp [hlist', hf], rfl⟩
  · rcases List.mem_cons.mp hf with rfl | hf
    · exact .inl ⟨e', by simp [hlist'], howner⟩
    · exact .inl ⟨f, by simp [hlist', hf], rfl⟩

theorem Carries.unlink (howner : e'.owner = e.owner) (hlist : t.list = before ++ e :: behind)
    (hlist' : t'.list = before ++ behind) : Carries t t' (some e') := by
  intro f hf
  rw [hlist] at hf
  rcases List.mem_append.mp hf with hf | hf
  · exact .inl ⟨f, by simp [hlist', hf], rfl⟩
  · rcases List.mem_cons.mp hf with rfl | hf
    · exact .inr ⟨e', rfl, howner⟩
    · exact .inl ⟨f, by simp [hlist', hf], rfl⟩

theorem claim_carries (now : Nat) (pendingSocket : Option SockId) (cleanupOnly : Bool)
    (t : Tracking) : Carries t (wgClaimTcpConnection now pendingSocket cleanupOnly t).2
      (wgClaimTcpConnection now pendingSocket cleanupOnly t).1 := by
  unfold wgClaimTcpConnection
  split
  · exact .refl t none
  · rename_i before e behind hfound
    refine .unlink ?_ (firstMatch_eq_some hfound).1 rfl
    rw [(release_fields e t).2]
    rfl

theorem authenticate_owner (now : Nat) (e : ListEntry) (t : Tracking) :
    (authenticate now e t).1.owner = e.owner := by
  unfold authenticate
  simp only [(release_fields _ t).2]
  rfl

theorem mark_carries (now connectionId : Nat) (t : Tracking) :
    Carries t (wgTcpMarkConnectionAuthenticated now connectionId t) none := by
  unfold wgTcpMarkConnectionAuthenticated
  split
  · exact .refl t none
  split
  · exact .refl t none
  · rename_i before e behind hfound
    exact .replace (authenticate_owner now e t) (firstMatch_eq_some hfound).1 rfl

theorem claimAuthenticated_carries (now connectionId : Nat) (stale : Bool) (t : Tracking) :
    Carries t (claimAuthenticated now connectionId stale t).2
      (claimAuthenticated now connectionId stale t).1 := by
  unfold claimAuthenticated
  split
  · exact .refl t none
  · rename_i before e behind hfound
    have hlist := (firstMatch_eq_some hfound).1
    simp only
    split
    · exact .unlink (authenticate_owner now e t) hlist rfl
    · exact .replace (authenticate_owner now e t) hlist rfl

theorem finishInit_carries (established : Bool) (s : SockId) (t : Tracking) :
    Carries t (wgFinishTcpConnectionInit established s t).2 none := by
  unfold wgFinishTcpConnectionInit
  split
  · exact .refl t none
  · rename_i before e behind hfound
    refine .replace ?_ (firstMatch_eq_some hfound).1 rfl
    show (if _ then e.kill else e).owner = e.owner
    split
    · exact e.owner_kill
    · rfl

theorem touch_carries (now peer : Nat) (t : Tracking) :
    Carries t (wgTouchTcpConnection now peer t) none := by
  unfold wgTouchTcpConnection
  split
  · exact .refl t none
  · rename_i before e behind hfound
    refine .replace ?_ (firstMatch_eq_some hfound).1 rfl
    rfl

theorem kill_carries (peer : Nat) (t : Tracking) : Carries t (t.kill peer) none := by
  intro e he
  refine .inl ⟨_, List.mem_map_of_mem he, ?_⟩
  split
  · exact e.owner_kill
  · rfl

/-! ### Steps -/

theorem kept_of_carries {claimed : Option ListEntry}
    (hcarries : Carries σ.tracking σ'.tracking claimed)
    (hclaimed : ∀ e, claimed = some e → e ∈ σ'.entries) :
    ∀ e ∈ σ.tracking.list, Kept σ σ' e := by
  intro e he
  rcases hcarries e he with ⟨e', he', howner⟩ | ⟨e', he', howner⟩
  · exact .inl ⟨e', mem_entries.mpr (.inl he'), howner⟩
  · exact .inl ⟨e', hclaimed e' he', howner⟩

theorem mem_entries_setListener {τ : State} {f : Family} {pc : ListenerPc}
    (h : pc.entry = some e) : e ∈ (τ.setListener f pc).entries := by
  refine mem_entries.mpr (.inr (.inl ⟨f, ?_⟩))
  rwa [State.listener_setListener, if_pos rfl]

theorem kept_worker (h : σ'.worker = σ.worker) (e : ListEntry) (he : σ.worker.entry = some e) :
    Kept σ σ' e :=
  .of_mem (mem_entries.mpr (.inr (.inr (.inl (h ▸ he)))))

theorem kept_peers (h : σ'.peers = σ.peers) (p : CarrierPeer) (hp : p ∈ σ.peers) (e : ListEntry)
    (he : p.promotion.entry = some e) : Kept σ σ' e :=
  .of_mem (mem_entries.mpr (.inr (.inr (.inr (.inl ⟨p, h ▸ hp, he⟩)))))

theorem kept_control (h : σ'.control = σ.control) (e : ListEntry)
    (he : σ.control.entry = some e) : Kept σ σ' e :=
  .of_mem (mem_entries.mpr (.inr (.inr (.inr (.inr (h ▸ he))))))

theorem kept_listeners (h4 : σ'.listener4.entry = σ.listener4.entry)
    (h6 : σ'.listener6.entry = σ.listener6.entry) (f : Family) (e : ListEntry)
    (he : (σ.listener f).entry = some e) : Kept σ σ' e := by
  refine .of_mem (mem_entries.mpr (.inr (.inl ⟨f, ?_⟩)))
  cases f
  · exact h4.trans he
  · exact h6.trans he

/-- A step of a listener thread, which has at most its own entry and the list in hand. -/
theorem kept_setListener {τ : State} {f : Family} {pc : ListenerPc} (claimed : Option ListEntry)
    (h4 : τ.listener4 = σ.listener4) (h6 : τ.listener6 = σ.listener6)
    (hworker : τ.worker = σ.worker) (hpeers : τ.peers = σ.peers)
    (hcontrol : τ.control = σ.control) (hcarries : Carries σ.tracking τ.tracking claimed)
    (hclaimed : ∀ e, claimed = some e → pc.entry = some e)
    (hown : ∀ e, (σ.listener f).entry = some e → Kept σ (τ.setListener f pc) e) :
    ∀ e ∈ σ.entries, Kept σ (τ.setListener f pc) e := by
  apply kept_of_places
  · apply @kept_of_carries σ _ claimed
    · rw [State.setListener_tracking]
      exact hcarries
    · exact fun e he => mem_entries_setListener (hclaimed e he)
  · intro g e he
    by_cases hg : g = f
    · subst hg
      exact hown e he
    · refine .of_mem (mem_entries.mpr (.inr (.inl ⟨g, ?_⟩)))
      rw [State.listener_setListener, if_neg hg]
      cases g
      · exact (congrArg ListenerPc.entry h4).trans he
      · exact (congrArg ListenerPc.entry h6).trans he
  · exact kept_worker ((State.setListener_worker ..).trans hworker)
  · exact kept_peers ((State.setListener_peers ..).trans hpeers)
  · exact kept_control ((State.setListener_control ..).trans hcontrol)

theorem ListenerMove.kept {f : Family} (hmove : ListenerMove σ f σ') :
    ∀ e ∈ σ.entries, Kept σ σ' e := by
  have nothing {pc : ListenerPc} (h : pc.entry = none) (e : ListEntry) (he : pc.entry = some e)
      {P : Prop} : P := by
    rw [h] at he
    cases he
  cases hmove with
  | plain n _ _ hentry _ _ =>
    exact kept_setListener none rfl rfl rfl rfl rfl (.refl _ _) (fun _ h => by cases h)
      fun e he => nothing hentry e he
  | claim hpc _ _ hentry =>
    exact kept_setListener _ rfl rfl rfl rfl rfl (claim_carries _ _ _ _)
      (fun e he => hentry.trans he)
      fun e he => nothing (by rw [hpc]; rfl) e he
  | destroy hpc _ hdestroy _ _ =>
    refine kept_setListener none rfl rfl rfl rfl rfl (.refl _ _) (fun _ h => by cases h)
      fun e he => .inr ?_
    cases hpc.symm.trans he
    exact hdestroy
  | prepare hpc =>
    exact kept_setListener none rfl rfl rfl rfl rfl (.refl _ _) (fun _ h => by cases h)
      fun e he => nothing (by rw [hpc]; rfl) e he
  | refuse hpc =>
    refine kept_setListener none rfl rfl rfl rfl rfl (.refl _ _)
      (fun _ h => by cases h) fun e he => ?_
    rw [hpc] at he
    exact .of_mem (mem_entries_setListener he)
  | @add e₀ t hpc hadd =>
    have hlist : t.list = σ.tracking.list ++ [e₀] := by
      unfold wgAddTcpSocketToList at hadd
      split at hadd <;> cases hadd
      rfl
    refine kept_setListener none rfl rfl rfl rfl rfl ?_ (fun _ h => by cases h) fun e he => ?_
    · exact fun e he => .inl ⟨e, by simp [hlist, he], rfl⟩
    · rw [hpc] at he
      cases he
      refine .of_mem (mem_entries.mpr (.inl ?_))
      rw [State.setListener_tracking]
      simp [hlist]
  | queue hpc =>
    exact kept_setListener none rfl rfl rfl rfl rfl (.refl _ _) (fun _ h => by cases h)
      fun e he => nothing (by rw [hpc]; rfl) e he
  | finish established hpc =>
    exact kept_setListener none rfl rfl rfl rfl rfl (finishInit_carries _ _ _)
      (fun _ h => by cases h)
      fun e he => nothing (by rw [hpc]; rfl) e he
  | kick hpc =>
    exact kept_setListener none rfl rfl rfl rfl rfl (.refl _ _) (fun _ h => by cases h)
      fun e he => nothing (by rw [hpc]; rfl) e he

theorem workerStep_kept (h : workerStep σ = some σ') : ∀ e ∈ σ.entries, Kept σ σ' e := by
  have same {w : WorkerPc} {work : Bool} (hentry : σ.worker.entry = none) :
      ∀ e ∈ σ.entries, Kept σ { σ with worker := w, cleanupWork := work } e := by
    apply kept_of_places
    · exact kept_of_carries (.refl _ none) (fun _ h => by cases h)
    · exact kept_listeners rfl rfl
    · intro e he
      rw [hentry] at he
      cases he
    · exact kept_peers rfl
    · exact kept_control rfl
  unfold workerStep at h
  split at h
  case h_1 hpc =>
    split at h <;> cases h
    exact same (by rw [hpc]; rfl)
  case h_2 hpc =>
    cases h
    exact same (by rw [hpc]; rfl)
  case h_3 now hpc =>
    have hcarries := claim_carries now none true σ.tracking
    split at h <;> rename_i hclaim <;> cases h <;> rw [hclaim] at hcarries
    all_goals
      apply kept_of_places
      · refine kept_of_carries hcarries fun e he => ?_
        cases he
        try exact mem_entries.mpr (.inr (.inr (.inl rfl)))
      · exact kept_listeners rfl rfl
      · intro e he
        rw [hpc] at he
        cases he
      · exact kept_peers rfl
      · exact kept_control rfl
  case h_4 e hpc =>
    split at h <;> rename_i hdestroy <;> cases h
    apply kept_of_places
    · exact kept_of_carries (.refl _ none) (fun _ h => by cases h)
    · exact kept_listeners rfl rfl
    · intro e' he'
      rw [hpc] at he'
      cases he'
      exact .inr hdestroy
    · exact kept_peers rfl
    · exact kept_control rfl
  case h_5 hpc =>
    cases h
    exact same (by rw [hpc]; rfl)
  case h_6 hpc =>
    split at h <;> cases h <;> exact same (by rw [hpc]; rfl)
  case h_7 hpc =>
    cases h
    exact same (by rw [hpc]; rfl)

/-- A step that gives a peer another promotion worker state. -/
theorem kept_setPeer {t : Tracking} {i : Nat} {p p' : CarrierPeer} (claimed : Option ListEntry)
    (hp : σ.peers[i]? = some p) (hcarries : Carries σ.tracking t claimed)
    (hclaimed : ∀ e, claimed = some e → p'.promotion.entry = some e)
    (hown : ∀ e, p.promotion.entry = some e →
      Kept σ ({ σ with tracking := t }.setPeer i p') e) :
    ∀ e ∈ σ.entries, Kept σ ({ σ with tracking := t }.setPeer i p') e := by
  have hi : i < σ.peers.length := (List.getElem?_eq_some_iff.mp hp).1
  apply kept_of_places
  · refine kept_of_carries hcarries fun e he => ?_
    refine mem_entries.mpr (.inr (.inr (.inr (.inl ⟨p', ?_, hclaimed e he⟩))))
    exact List.mem_set hi p'
  · exact kept_listeners rfl rfl
  · exact kept_worker rfl
  · intro q hq e he
    obtain ⟨j, hj⟩ := List.mem_iff_getElem?.mp hq
    by_cases hij : i = j
    · subst hij
      cases hp.symm.trans hj
      exact hown e he
    · refine .of_mem (mem_entries.mpr (.inr (.inr (.inr (.inl ⟨q, ?_, he⟩)))))
      apply List.mem_iff_getElem?.mpr
      exact ⟨j, (List.getElem?_set_ne hij).trans hj⟩
  · exact kept_control rfl

theorem promotionStep_kept {i : Nat} {ok : Bool} {p : CarrierPeer} (hp : σ.peers[i]? = some p)
    (h : promotionStep σ i ok p = some σ') : ∀ e ∈ σ.entries, Kept σ σ' e := by
  have hi : i < σ.peers.length := (List.getElem?_eq_some_iff.mp hp).1
  have nothing {pc : PromotionPc} (h : pc.entry = none) (e : ListEntry) (he : pc.entry = some e)
      {P : Prop} : P := by
    rw [h] at he
    cases he
  unfold promotionStep at h
  split at h
  case h_1 hpc =>
    split at h <;> cases h
    exact kept_setPeer none hp (.refl _ _) (fun _ h => by cases h)
      fun e he => nothing (by rw [hpc]; rfl) e he
  case h_2 hpc =>
    split at h <;> cases h <;>
      exact kept_setPeer none hp (.refl _ _) (fun _ h => by cases h)
        fun e he => nothing (by rw [hpc]; rfl) e he
  case h_3 connectionId hpc =>
    have hcarries := claimAuthenticated_carries σ.clock connectionId (!ok) σ.tracking
    split at h <;> rename_i hclaim <;> cases h <;> rw [hclaim] at hcarries
    · exact kept_setPeer none hp hcarries (fun _ h => by cases h)
        fun e he => nothing (by rw [hpc]; rfl) e he
    · exact kept_setPeer _ hp hcarries (fun e he => he)
        fun e he => nothing (by rw [hpc]; rfl) e he
  case h_4 e hpc =>
    split at h
    · split at h <;> rename_i hdestroy <;> cases h
      refine kept_setPeer none hp (.refl _ _) (fun _ h => by cases h) fun e' he' => .inr ?_
      rw [hpc] at he'
      cases he'
      exact hdestroy
    · cases h
      refine kept_setPeer none hp (.refl _ _) (fun _ h => by cases h) fun e' he' => ?_
      rw [hpc] at he'
      refine .of_mem (mem_entries.mpr (.inr (.inr (.inr (.inl ⟨_, List.mem_set hi _, he'⟩)))))
  case h_5 s hpc =>
    split at h <;> cases h <;>
      exact kept_setPeer none hp (.refl _ _) (fun _ h => by cases h)
        fun e he => nothing (by rw [hpc]; rfl) e he
  case h_6 e hpc =>
    split at h <;> rename_i hdestroy <;> cases h
    refine kept_setPeer none hp (.refl _ _) (fun _ h => by cases h) fun e' he' => .inr ?_
    rw [hpc] at he'
    cases he'
    exact hdestroy

/-- A change to a peer that leaves its promotion worker where it is. -/
theorem kept_peer_same {i : Nat} {p p' : CarrierPeer} (hp : σ.peers[i]? = some p)
    (h : σ'.peers = σ.peers.set i p') (hsame : p'.promotion = p.promotion) (q : CarrierPeer)
    (hq : q ∈ σ.peers) (e : ListEntry) (he : q.promotion.entry = some e) : Kept σ σ' e := by
  have hi : i < σ.peers.length := (List.getElem?_eq_some_iff.mp hp).1
  refine .of_mem (mem_entries.mpr (.inr (.inr (.inr (.inl ?_)))))
  rw [h]
  obtain ⟨j, hj⟩ := List.mem_iff_getElem?.mp hq
  by_cases hij : i = j
  · subst hij
    cases hp.symm.trans hj
    exact ⟨p', List.mem_set hi p', by rw [hsame, he]⟩
  · exact ⟨q, List.mem_iff_getElem?.mpr ⟨j, (List.getElem?_set_ne hij).trans hj⟩, he⟩

theorem releaseStep_kept {stage : ReleaseStage} {next : Option ReleaseStage}
    (h : releaseStep σ stage = some (σ', next)) :
    σ'.listener4.entry = σ.listener4.entry ∧ σ'.listener6.entry = σ.listener6.entry ∧
      σ'.tracking = σ.tracking ∧ σ'.worker = σ.worker ∧ σ'.peers = σ.peers ∧
      σ'.kicks = σ.kicks := by
  have hjoin {pc : ListenerPc} (hpc : pc = .absent ∨ pc = .exited) : pc.entry = none := by
    rcases hpc with rfl | rfl <;> rfl
  cases stage with
  | join4 =>
    simp only [releaseStep] at h
    split at h <;> rename_i hgone <;> cases h
    exact ⟨(hjoin hgone).symm, rfl, rfl, rfl, rfl, rfl⟩
  | join6 =>
    simp only [releaseStep] at h
    split at h <;> rename_i hgone <;> cases h
    exact ⟨rfl, (hjoin hgone).symm, rfl, rfl, rfl, rfl⟩
  | _ =>
    cases h
    exact ⟨rfl, rfl, rfl, rfl, rfl, rfl⟩

theorem releaseStep_kept_with {stage : ReleaseStage} {next : Option ReleaseStage} {τ : State}
    {control : Control} (h : releaseStep σ stage = some (τ, next))
    (hcontrol : σ.control.entry = none) :
    (∀ e ∈ σ.entries, Kept σ { τ with control := control } e) ∧ τ.kicks = σ.kicks := by
  obtain ⟨h4, h6, htracking, hworker, hpeers, hkicks⟩ := releaseStep_kept h
  refine ⟨?_, hkicks⟩
  apply kept_of_places
  · apply @kept_of_carries σ _ none
    · rw [htracking]
      exact .refl _ none
    · intro _ h
      cases h
  · exact kept_listeners h4 h6
  · exact kept_worker hworker
  · exact kept_peers hpeers
  · intro e he
    rw [hcontrol] at he
    cases he

theorem openStep_kept {stage : OpenStage} {requested port : Nat} {ok ipv6 : Bool}
    (hstaged : Staged σ) (hcontrol : σ.control = .opening stage requested)
    (h : openStep σ requested ok port ipv6 stage = some σ') :
    (∀ e ∈ σ.entries, Kept σ σ' e) ∧ σ'.kicks = σ.kicks := by
  have hjoined := hstaged.joined
  rw [hcontrol] at hjoined
  have hentry : σ.control.entry = none := by rw [hcontrol]; rfl
  have nothing (e : ListEntry) (he : σ.control.entry = some e) : Kept σ σ' e := by
    rw [hentry] at he
    cases he
  cases stage with
  | thread4 =>
    have h4 : σ.listener4 = .absent := hjoined .v4 rfl
    simp only [openStep] at h
    split at h <;> cases h
    all_goals
      refine ⟨kept_of_places ?_ ?_ ?_ ?_ nothing, rfl⟩
      · exact kept_of_carries (.refl _ none) (fun _ h => by cases h)
      · exact kept_listeners (by simp [h4, ListenerPc.entry]) rfl
      · exact kept_worker rfl
      · exact kept_peers rfl
  | thread6 =>
    have h6 : σ.listener6 = .absent := hjoined .v6 rfl
    simp only [openStep] at h
    repeat' split at h
    all_goals cases h
    all_goals
      refine ⟨kept_of_places ?_ ?_ ?_ ?_ nothing, rfl⟩
      · exact kept_of_carries (.refl _ none) (fun _ h => by cases h)
      · exact kept_listeners rfl (by simp [h6, ListenerPc.entry])
      · exact kept_worker rfl
      · exact kept_peers rfl
  | peers i =>
    simp only [openStep] at h
    split at h
    · cases h
      refine ⟨kept_of_places ?_ ?_ ?_ ?_ nothing, rfl⟩
      · exact kept_of_carries (.refl _ none) (fun _ h => by cases h)
      · exact kept_listeners rfl rfl
      · exact kept_worker rfl
      · exact kept_peers rfl
    · rename_i p hp
      cases h
      refine ⟨kept_of_places ?_ ?_ ?_ ?_ nothing, rfl⟩
      · exact kept_of_carries (.refl _ none) (fun _ h => by cases h)
      · exact kept_listeners rfl rfl
      · exact kept_worker rfl
      · exact kept_peer_same hp rfl rfl
  | _ =>
    simp only [openStep] at h
    repeat' split at h
    all_goals cases h
    all_goals
      refine ⟨kept_of_places ?_ ?_ ?_ ?_ nothing, rfl⟩
      · exact kept_of_carries (.refl _ none) (fun _ h => by cases h)
      · exact kept_listeners rfl rfl
      · exact kept_worker rfl
      · exact kept_peers rfl

theorem closeStep_kept {stage : CloseStage} {requested : Option Nat}
    (hcontrol : σ.control = .closing stage requested)
    (h : closeStep σ requested stage = some σ') :
    (∀ e ∈ σ.entries, Kept σ σ' e) ∧ σ'.kicks = σ.kicks := by
  have same {τ : State} (htracking : τ.tracking = σ.tracking) (h4 : τ.listener4 = σ.listener4)
      (h6 : τ.listener6 = σ.listener6) (hworker : τ.worker = σ.worker)
      (hpeers : τ.peers = σ.peers) (hentry : σ.control.entry = none) :
      ∀ e ∈ σ.entries, Kept σ τ e := by
    apply kept_of_places
    · apply @kept_of_carries σ _ none
      · rw [htracking]
        exact .refl _ none
      · intro _ h
        cases h
    · exact kept_listeners (congrArg _ h4) (congrArg _ h6)
    · exact kept_worker hworker
    · exact kept_peers hpeers
    · intro e he
      rw [hentry] at he
      cases he
  cases stage with
  | releasing stage =>
    simp only [closeStep, Option.map_eq_some_iff] at h
    obtain ⟨⟨τ, next⟩, hrelease, hτ⟩ := h
    have hentry : σ.control.entry = none := by rw [hcontrol]; rfl
    cases next <;> cases hτ <;> exact releaseStep_kept_with hrelease hentry
  | drain =>
    have hcarries := claim_carries σ.clock none false σ.tracking
    simp only [closeStep] at h
    split at h <;> rename_i hclaim <;> cases h <;> rw [hclaim] at hcarries
    all_goals
      refine ⟨kept_of_places ?_ ?_ ?_ ?_ ?_, rfl⟩
      · refine kept_of_carries hcarries fun e he => ?_
        cases he
        try exact mem_entries.mpr (.inr (.inr (.inr (.inr rfl))))
      · exact kept_listeners rfl rfl
      · exact kept_worker rfl
      · exact kept_peers rfl
      · intro e he
        rw [hcontrol] at he
        cases he
  | destroy e =>
    simp only [closeStep] at h
    split at h <;> rename_i hdestroy <;> cases h
    refine ⟨kept_of_places ?_ ?_ ?_ ?_ ?_, rfl⟩
    · exact kept_of_carries (.refl _ none) (fun _ h => by cases h)
    · exact kept_listeners rfl rfl
    · exact kept_worker rfl
    · exact kept_peers rfl
    · intro e' he'
      rw [hcontrol] at he'
      cases he'
      exact .inr hdestroy
  | reinit =>
    cases requested <;> cases h <;>
      exact ⟨same rfl rfl rfl rfl rfl (by rw [hcontrol]; rfl), rfl⟩
  | _ =>
    simp only [closeStep, State.cancelCleanup] at h
    split at h <;> cases h
    exact ⟨same rfl rfl rfl rfl rfl (by rw [hcontrol]; rfl), rfl⟩

theorem controlStep_kept {c : ControlChoice} (hstaged : Staged σ)
    (h : controlStep σ σ.control c = some σ') :
    (∀ e ∈ σ.entries, Kept σ σ' e) ∧ σ'.kicks = σ.kicks := by
  have same {peers : List CarrierPeer} {control : Control} {scheduled : Bool}
      (hpeers : ∀ p ∈ σ.peers, ∀ e, p.promotion.entry = some e →
        Kept σ { σ with peers := peers, control := control, cleanupScheduled := scheduled } e)
      (hentry : σ.control.entry = none) : ∀ e ∈ σ.entries,
        Kept σ { σ with peers := peers, control := control, cleanupScheduled := scheduled } e := by
    apply kept_of_places
    · exact kept_of_carries (.refl _ none) (fun _ h => by cases h)
    · exact kept_listeners rfl rfl
    · exact kept_worker rfl
    · exact hpeers
    · intro e he
      rw [hentry] at he
      cases he
  cases hcontrol : σ.control with
  | opening stage requested =>
    rw [hcontrol] at h
    cases c with
    | proceed ok port ipv6 => exact openStep_kept hstaged hcontrol h
    | _ => cases h
  | closing stage requested =>
    rw [hcontrol] at h
    cases c with
    | proceed ok port ipv6 => exact closeStep_kept hcontrol h
    | _ => cases h
  | undoing stage requested =>
    have hentry : σ.control.entry = none := by rw [hcontrol]; rfl
    rw [hcontrol] at h
    cases c with
    | proceed ok port ipv6 =>
      simp only [controlStep, Option.map_eq_some_iff] at h
      obtain ⟨⟨τ, next⟩, hrelease, hτ⟩ := h
      cases next <;> cases hτ <;> exact releaseStep_kept_with hrelease hentry
    | _ => cases h
  | stopping i =>
    have hentry : σ.control.entry = none := by rw [hcontrol]; rfl
    rw [hcontrol] at h
    cases c with
    | proceed ok port ipv6 =>
      simp only [controlStep] at h
      split at h
      · cases h
        exact ⟨same (kept_peers rfl) hentry, rfl⟩
      · rename_i p hp
        cases h
        exact ⟨same (kept_peer_same hp rfl rfl) hentry, rfl⟩
    | _ => cases h
  | quieting i =>
    have hentry : σ.control.entry = none := by rw [hcontrol]; rfl
    rw [hcontrol] at h
    cases c with
    | proceed ok port ipv6 =>
      simp only [controlStep] at h
      split at h
      · cases h
      · rename_i p hp
        split at h <;> cases h
        exact ⟨same (kept_peer_same hp rfl rfl) hentry, rfl⟩
    | _ => cases h
  | _ =>
    have hentry : σ.control.entry = none := by rw [hcontrol]; rfl
    rw [hcontrol] at h
    cases c <;> cases h
    exact ⟨same (kept_peers rfl) hentry, rfl⟩

/-- A marked thread still has the entry it had, for the same owner. -/
theorem marked_entry (peer : Nat) {pc : ListenerPc} {e : ListEntry} (he : pc.entry = some e) :
    ∃ e', (match pc with
      | .adding e => .adding (if e.ownedBy peer then e.kill else e)
      | pc => pc : ListenerPc).entry = some e' ∧ e'.owner = e.owner := by
  cases pc with
  | adding e₀ =>
    cases he
    refine ⟨_, rfl, ?_⟩
    split
    · exact e.owner_kill
    · rfl
  | _ => exact ⟨e, he, rfl⟩

theorem kill_kept (σ : State) (peer : Nat) : ∀ e ∈ σ.entries, Kept σ (σ.kill peer) e := by
  apply kept_of_places
  · exact kept_of_carries (kill_carries peer σ.tracking) (fun _ h => by cases h)
  · intro f e he
    cases f
    · obtain ⟨e', he', howner⟩ := marked_entry peer he
      exact .inl ⟨e', mem_entries.mpr (.inr (.inl ⟨.v4, he'⟩)), howner⟩
    · obtain ⟨e', he', howner⟩ := marked_entry peer he
      exact .inl ⟨e', mem_entries.mpr (.inr (.inl ⟨.v6, he'⟩)), howner⟩
  · exact kept_worker rfl
  · exact kept_peers rfl
  · exact kept_control rfl

theorem step_kicked {a : Action} (hstaged : Staged σ) (h : Kicked σ)
    (hstep : step σ a = some σ') : Kicked σ' := by
  have same {τ : State} (hkicks : ∀ peer ∈ τ.kicks, peer ∈ σ.kicks)
      (htracking : Carries σ.tracking τ.tracking none)
      (h4 : τ.listener4 = σ.listener4) (h6 : τ.listener6 = σ.listener6)
      (hworker : τ.worker = σ.worker)
      (hpeers : ∀ p ∈ σ.peers, ∀ e, p.promotion.entry = some e → Kept σ τ e)
      (hcontrol : τ.control = σ.control) : Kicked τ :=
    h.step hkicks (kept_of_places (kept_of_carries htracking (fun _ h => by cases h))
      (kept_listeners (congrArg _ h4) (congrArg _ h6)) (kept_worker hworker) hpeers
      (kept_control hcontrol))
  cases a with
  | listener f c =>
    have hmove := listenerStep_move hstep
    refine h.step ?_ hmove.kept
    cases hmove <;> simp
  | worker =>
    refine h.step ?_ (workerStep_kept hstep)
    simp only [step, workerStep] at hstep
    repeat' split at hstep
    all_goals cases hstep
    all_goals exact fun peer hpeer => hpeer
  | control c =>
    obtain ⟨hkept, hkicks⟩ := controlStep_kept hstaged hstep
    exact h.step (fun peer hpeer => hkicks ▸ hpeer) hkept
  | promotion i ok =>
    obtain ⟨p, hp, hpromotion⟩ := Option.bind_eq_some_iff.mp hstep
    refine h.step ?_ (promotionStep_kept hp hpromotion)
    unfold promotionStep at hpromotion
    repeat' split at hpromotion
    all_goals cases hpromotion
    all_goals exact fun peer hpeer => hpeer
  | touch peer =>
    cases hstep
    exact same (fun _ hk => hk) (touch_carries _ _ _) rfl rfl rfl (kept_peers rfl) rfl
  | mark connectionId =>
    cases hstep
    exact same (fun _ hk => hk) (mark_carries _ _ _) rfl rfl rfl (kept_peers rfl) rfl
  | kill peer =>
    cases hstep
    exact h.step (fun _ hk => hk) (kill_kept σ peer)
  | kickCheck peer =>
    simp only [step] at hstep
    split at hstep <;> rename_i hguard <;> cases hstep
    simp only [Bool.and_eq_true, List.any_eq_true] at hguard
    obtain ⟨-, e, he, howner⟩ := hguard
    intro k hk
    rcases List.mem_cons.mp hk with rfl | hk
    · exact ⟨e, he, ListEntry.ownedBy_iff.mp howner⟩
    · exact h k hk
  | kickQueue peer =>
    simp only [step] at hstep
    split at hstep <;> cases hstep
    exact same (fun _ hk => List.mem_of_mem_erase hk) (.refl _ none) rfl rfl rfl (kept_peers rfl)
      rfl
  | request i connectionId =>
    obtain ⟨p, hp, rfl⟩ := Option.map_eq_some_iff.mp hstep
    unfold requestStep
    split
    · exact same (fun _ hk => hk) (.refl _ none) rfl rfl rfl (kept_peer_same hp rfl rfl) rfl
    · exact h
  | dial i =>
    obtain ⟨p, hp, hdial⟩ := Option.bind_eq_some_iff.mp hstep
    split at hdial <;> cases hdial
    exact same (fun _ hk => hk) (.refl _ none) rfl rfl rfl (kept_peer_same hp rfl rfl) rfl
  | drop i s =>
    obtain ⟨p, hp, rfl⟩ := Option.map_eq_some_iff.mp hstep
    exact same (fun _ hk => hk) (.refl _ none) rfl rfl rfl (kept_peer_same hp rfl rfl) rfl
  | peerCreate =>
    simp only [step] at hstep
    split at hstep <;> cases hstep
    refine same (fun _ hk => hk) (.refl _ none) rfl rfl rfl (fun p hp e he => ?_) rfl
    refine .of_mem (mem_entries.mpr (.inr (.inr (.inr (.inl ⟨p, ?_, he⟩)))))
    exact List.mem_append_left _ hp
  | setPort port =>
    simp only [step] at hstep
    split at hstep <;> cases hstep <;>
      exact same (fun _ hk => hk) (.refl _ none) rfl rfl rfl (kept_peers rfl) rfl
  | tick elapsed =>
    cases hstep
    exact same (fun _ hk => hk) (.refl _ none) rfl rfl rfl (kept_peers rfl) rfl

end Entries

end Listener

end WgTcp
