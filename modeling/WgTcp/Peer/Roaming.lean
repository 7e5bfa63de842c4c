import WgTcp.Peer.Promotion

/-!
# Roaming generations

`tcp_roaming_connection_id` is the newest connection that a peer has been heard
on, or was promoted to. It is compared and written under `endpoint_lock`, from
authenticated packets of any age and from the promotion worker. A promotion
keeps `tcp_socket_lock` from its generation check to its end, so promotions
succeed in the order of their checks.
-/

namespace WgTcp

/-- The accepted socket that a promotion has passed its generation check for. -/
def Owner.candidate : Owner → Option SockId
  | .promoteInbound new _ | .promoteOutbound new => some new
  | _ => none

def Plan.candidate : Plan → Option SockId
  | .detach _ owner => owner.candidate
  | .promote new _ _ => some new
  | _ => none

def Holder.candidate : Holder → Option SockId
  | .promoteDetach s | .promoteClaim s | .promotePublish s | .promoteSetup s => some s
  | .drain _ plan _ | .cancelRead plan | .cancelWrite plan | .clearFlags plan => plan.candidate
  | .reset _ owner | .release _ owner | .purge _ owner | .shutdown _ owner => owner.candidate
  | _ => none

theorem Plan.next_candidate (plan : Plan) : plan.next.candidate = plan.candidate := by
  cases plan with
  | promote new oldInbound oldOutbound => cases oldInbound <;> cases oldOutbound <;> rfl
  | destroy s => cases s <;> rfl
  | _ => rfl

theorem Owner.next_candidate {owner : Owner} {s t : SockId}
    (h : (owner.next s false).candidate = some t) : owner.candidate = some t := by
  cases owner with
  | promoteInbound new old =>
    cases old with
    | none => exact h
    | some o =>
      simp only [Owner.next, Bool.false_eq_true, if_false] at h
      split at h <;> exact h
  | promoteOutbound new => exact h
  | stopOutbound other =>
    cases other with
    | none => cases h
    | some o =>
      simp only [Owner.next] at h
      split at h <;> cases h
  | _ => cases h

theorem Plan.next_ne_promoteCheck (plan : Plan) {s : SockId} {connectionId : Nat} :
    plan.next ≠ .promoteCheck s connectionId := by
  cases plan with
  | promote new oldInbound oldOutbound =>
    cases oldInbound <;> cases oldOutbound <;> intro h <;> cases h
  | destroy s => cases s <;> intro h <;> cases h
  | _ =>
    intro h
    cases h

theorem Owner.next_ne_promoteCheck (owner : Owner) {s t : SockId} {connectionId : Nat} :
    owner.next s false ≠ .promoteCheck t connectionId := by
  unfold Owner.next
  repeat' split
  all_goals
    intro h
    cases h

/-- A socket is listed once, when it is accepted. -/
structure Sock.Ages (sk sk' : Sock) : Prop where
  unused : sk'.stage = .unused → sk.stage = .unused
  provisional : ∀ connectionId, sk'.stage = .provisional connectionId →
    sk.stage = .provisional connectionId

theorem Sock.Ages.of_eq {sk sk' : Sock} (h : sk'.stage = sk.stage) : sk.Ages sk' := by
  constructor <;> simp [h]

theorem Sock.Ages.update {socks : SockId → Sock} {s : SockId} {sk : Sock}
    (h : (socks s).Ages sk) (t : SockId) : (socks t).Ages (Function.update socks s sk t) := by
  by_cases ht : t = s
  · subst ht
    simpa using h
  · exact .of_eq (by simp [ht])

/-- An observed endpoint is no dial target, whatever its age. -/
theorem observedEndpoint_keeps_target (transport : Transport) (up established : Bool)
    (a : Addressing) (ep : Endpoint) :
    (wgSocketSetPeerEndpointInternal transport up established a ep false).1.peerEndpoint =
        a.peerEndpoint ∧
      (wgSocketSetPeerEndpointInternal transport up established a ep false).2 = .keep := by
  unfold wgSocketSetPeerEndpointInternal
  split
  · exact ⟨rfl, rfl⟩
  split
  · exact ⟨rfl, rfl⟩
  · cases transport <;> exact ⟨rfl, rfl⟩

namespace State

variable {σ τ : State} {h k : Holder}

def generation (σ : State) : Nat := σ.peer.addressing.tcpRoamingConnectionId

theorem PromotionMove.generation_le {a : Action} (hm : σ.PromotionMove a τ) :
    σ.generation ≤ τ.generation := by
  cases hm with
  | unasked hu => exact (congrArg Addressing.tcpRoamingConnectionId hu.addressing).ge
  | setEndpoint ep configured =>
    refine Nat.le_of_eq ?_
    simp only [State.generation, setPeer_peer, wgSocketSetPeerEndpointInternal, Addressing.store]
    repeat' split
    all_goals rfl
  | learn ep connectionId =>
    simp only [State.generation, setPeer_peer, learnDialTarget]
    split
    · exact le_rfl
    rename_i hnew
    split
    · exact le_rfl
    · simp only [Bool.or_eq_true, decide_eq_true_eq, not_or, not_lt] at hnew
      split <;> exact hnew.2
  | generation choice s connectionId holds newer => exact newer
  | request connectionId =>
    refine Nat.le_of_eq ?_
    simp only [State.generation, setPeer_peer, Peer.requestPromotion]
    split <;> rfl
  | take | start | cancel => exact le_rfl

/-! ## The candidate of a promotion -/

/-- A candidate stays the same until its promotion is over, and has passed the check. -/
theorem LockedMove.candidate (hm : σ.LockedMove h τ) {t : SockId}
    (hk : τ.lock.bind Holder.candidate = some t) :
    h.candidate = some t ∨ h = .promoteCheck t τ.generation := by
  cases hm with
  | pass passes =>
    cases passes with
    | promoteDetached | drained | drain => exact .inl hk
    | _ => cases hk
  | promoteCheck s connectionId =>
    obtain rfl := Option.some.inj hk
    exact .inr rfl
  | setup setsUp => cases setsUp <;> cases hk
  | rearm rearms => cases rearms <;> cases hk
  | unwindFinish caller =>
    simp only [hold_lock, Option.bind_some] at hk
    split at hk <;> cases hk
  | bootstrapTake k next =>
    rcases next with rfl | ⟨s, rfl⟩ <;> cases hk
  | stopPurge s inbound links => cases inbound <;> cases hk
  | clearFlags plan =>
    refine .inl ?_
    rwa [hold_lock, Option.bind_some, Plan.next_candidate] at hk
  | shutdown s owner => exact .inl (Owner.next_candidate hk)
  | cancelRead | cancelWrite | reset | release | purge | promoteFree | promoteClaim
  | promotePublish => exact .inl hk
  | _ => cases hk

theorem Holder.entry_candidate {k : Holder} (hk : k.entry = true) : k.candidate = none := by
  cases k with
  | drain sockets plan cancel =>
    cases plan with
    | destroy => rfl
    | _ => cases hk
  | _ => first | rfl | cases hk

theorem step_candidate {A : SkbAllocator} {queueLimit : Nat} {a : Action} (hc : σ.Control)
    (h : σ.step A queueLimit a = some τ) {t : SockId}
    (hk : τ.lock.bind Holder.candidate = some t) :
    σ.lock.bind Holder.candidate = some t ∨ σ.lock = some (.promoteCheck t τ.generation) := by
  cases a with
  | kernel e =>
    obtain ⟨sk, -, rfl⟩ := Option.map_eq_some_iff.mp h
    exact .inl hk
  | callback s =>
    rw [(callbackStep_steady h).lock] at hk
    exact .inl hk
  | read choice =>
    rw [(readStep_steady h).lock] at hk
    exact .inl hk
  | write choice =>
    rw [(writeStep_steady h).lock] at hk
    exact .inl hk
  | request r =>
    rw [(requestStep_steady h).lock] at hk
    exact .inl hk
  | thread t choice =>
    cases threadStep_cases hc h with
    | aside aside => exact .inl (aside.lock ▸ hk)
    | acquire k entry free lock =>
      rw [lock, Option.bind_some, Holder.entry_candidate entry] at hk
      cases hk
    | _ => exact .inl hk
  | locked choice =>
    obtain ⟨k, hl, h⟩ := Option.bind_eq_some_iff.mp h
    rcases (lockedStep_cases hc hl h).candidate hk with hcandidate | rfl
    · exact .inl (by rw [hl]; exact hcandidate)
    · exact .inr hl
  | lifecycle l =>
    cases lifecycleStep_cases hc h with
    | install | handover => cases hk
    | _ => exact .inl hk

/-! ## The connection id of a candidate -/

theorem LockedMove.ages (hm : σ.LockedMove h τ) (s : SockId) :
    (σ.socks s).Ages (τ.socks s) := by
  cases hm with
  | create | connectPublish | promotePublish =>
    refine @Sock.Ages.update σ.socks _ _ ?_ s
    exact ⟨(fun h => by cases h), (fun _ h => by cases h)⟩
  | setup | start | handoverReset | reset | shutdown =>
    refine @Sock.Ages.update σ.socks _ _ ?_ s
    exact .of_eq rfl
  | connectReturn => exact .of_eq (by simp)
  | _ => exact .of_eq rfl

theorem step_ages {A : SkbAllocator} {queueLimit : Nat} {a : Action} (hc : σ.Control)
    (h : σ.step A queueLimit a = some τ)
    (hnew : ∀ s connectionId, a ≠ .kernel (.accept s connectionId)) (s : SockId) :
    (σ.socks s).Ages (τ.socks s) := by
  cases a with
  | kernel e =>
    obtain ⟨sk, hsk, rfl⟩ := Option.map_eq_some_iff.mp h
    refine @Sock.Ages.update σ.socks _ _ ?_ s
    apply Sock.Ages.of_eq
    cases e with
    | accept t connectionId => exact absurd rfl (hnew t connectionId)
    | foreignRead =>
      simp only [Sock.kernel] at hsk
      split at hsk <;> cases hsk
      rfl
    | _ =>
      obtain ⟨-, ⟨⟩⟩ := Option.ite_none_right_eq_some.mp hsk
      rfl
  | callback t =>
    cases callbackStep_cases h with
    | _ =>
      refine @Sock.Ages.update σ.socks _ _ ?_ s
      exact .of_eq rfl
  | read choice =>
    cases readStep_cases h with
    | pass =>
      refine @Sock.Ages.update σ.socks _ _ ?_ s
      exact .of_eq rfl
    | _ => exact .of_eq rfl
  | write choice =>
    cases writeStep_cases h with
    | send | arm =>
      refine @Sock.Ages.update σ.socks _ _ ?_ s
      exact .of_eq rfl
    | dequeue =>
      apply Sock.Ages.of_eq
      unfold writeDequeue
      split <;> rfl
    | _ => exact .of_eq rfl
  | request r =>
    cases requestStep_cases h with
    | accept =>
      refine @Sock.Ages.update σ.socks _ _ ?_ s
      exact .of_eq rfl
    | aside aside => exact .of_eq (by rw [aside.socks])
  | thread t choice =>
    cases threadStep_cases hc h with
    | aside aside => exact .of_eq (by rw [aside.socks])
    | acquire k entry free lock device peer socks => exact .of_eq (by rw [socks])
    | promotionClaim =>
      refine @Sock.Ages.update σ.socks _ _ ?_ s
      exact ⟨(fun h => by cases h), (fun _ h => by cases h)⟩
    | _ => exact .of_eq rfl
  | locked choice =>
    obtain ⟨k, hk, h⟩ := Option.bind_eq_some_iff.mp h
    exact (lockedStep_cases hc hk h).ages s
  | lifecycle l =>
    cases lifecycleStep_cases hc h with
    | install =>
      refine @Sock.Ages.update σ.socks _ _ ?_ s
      exact ⟨(fun h => by cases h), (fun _ h => by cases h)⟩
    | _ => exact .of_eq rfl

/-- The id under which the listener has listed `s`, while something still goes by that id. -/
def Bears (σ : State) (s : SockId) (connectionId : Nat) : Prop :=
  (σ.socks s).stage = .provisional connectionId ∨ σ.promotion = .wait s connectionId ∨
    σ.lock = some (.promoteCheck s connectionId)

theorem requestStep_promotion {queueLimit : Nat} {r : Request}
    (h : σ.requestStep queueLimit r = some τ) : τ.promotion = σ.promotion := by
  cases r with
  | enqueue frame =>
    cases h
    unfold enqueueStep
    split <;> rfl
  | _ =>
    obtain ⟨-, ⟨⟩⟩ := Option.ite_none_left_eq_some.mp h
    rfl

/-- A promotion begins from outside, not from another place under the lock. -/
theorem LockedMove.not_promoteCheck (hm : σ.LockedMove h τ) {s : SockId} {connectionId : Nat} :
    τ.lock ≠ some (.promoteCheck s connectionId) := by
  intro hlock
  cases hm with
  | pass passes => cases passes <;> cases hlock
  | setup setsUp => cases setsUp <;> cases hlock
  | rearm rearms => cases rearms <;> cases hlock
  | unwindFinish =>
    rw [hold_lock] at hlock
    split at hlock <;> cases hlock
  | bootstrapTake k next => rcases next with rfl | ⟨t, rfl⟩ <;> cases hlock
  | stopPurge t inbound => cases inbound <;> cases hlock
  | clearFlags plan => exact plan.next_ne_promoteCheck (Option.some.inj hlock)
  | shutdown t owner => exact owner.next_ne_promoteCheck (Option.some.inj hlock)
  | _ => cases hlock

theorem LockedMove.promotion_wait (hm : σ.LockedMove h τ) {s : SockId} {connectionId : Nat}
    (hpc : τ.promotion = .wait s connectionId) : σ.promotion = .wait s connectionId := by
  cases hm with
  | promoteUnlock => cases hpc
  | connectReturn caller => cases caller <;> exact hpc
  | _ => exact hpc

theorem step_bears {A : SkbAllocator} {queueLimit : Nat} {a : Action} (hc : σ.Control)
    (h : σ.step A queueLimit a = some τ)
    (hnew : ∀ s connectionId, a ≠ .kernel (.accept s connectionId)) {s : SockId}
    {connectionId : Nat} (hb : τ.Bears s connectionId) : σ.Bears s connectionId := by
  have hages := step_ages hc h hnew s
  have by_parts (hpc : τ.promotion = .wait s connectionId → σ.Bears s connectionId)
      (hlock : τ.lock = some (.promoteCheck s connectionId) → σ.Bears s connectionId) :
      σ.Bears s connectionId :=
    hb.elim (fun hstage => .inl (hages.provisional connectionId hstage)) (Or.rec hpc hlock)
  have keep (hpc : τ.promotion = σ.promotion) (hlock : τ.lock = σ.lock) :
      σ.Bears s connectionId :=
    by_parts (fun h => .inr (.inl (hpc ▸ h))) fun h => .inr (.inr (hlock ▸ h))
  cases a with
  | kernel e =>
    obtain ⟨sk, -, rfl⟩ := Option.map_eq_some_iff.mp h
    exact keep rfl rfl
  | callback t =>
    refine keep ?_ (callbackStep_steady h).lock
    cases callbackStep_cases h <;> rfl
  | read choice =>
    refine keep ?_ (readStep_steady h).lock
    cases readStep_cases h <;> rfl
  | write choice =>
    refine keep ?_ (writeStep_steady h).lock
    cases writeStep_cases h with
    | dequeue =>
      unfold writeDequeue
      split <;> rfl
    | _ => rfl
  | request r => exact keep (requestStep_promotion h) (requestStep_steady h).lock
  | thread t choice =>
    cases threadStep_steps hc h with
    | promotionClaim id t pc stage =>
      refine by_parts (fun hpc => ?_) fun hlock => .inr (.inr hlock)
      obtain ⟨rfl, rfl⟩ := PromotionPc.wait.inj hpc
      exact .inl stage
    | promotionLock t id pc free =>
      refine by_parts (fun h => by cases h) fun hlock => ?_
      obtain ⟨rfl, rfl⟩ := Holder.promoteCheck.inj (Option.some.inj hlock)
      exact .inr (.inl pc)
    | promotionTake =>
      refine by_parts (fun hpc => ?_) fun hlock => .inr (.inr hlock)
      dsimp only at hpc
      split at hpc <;> cases hpc
    | promotionStart | promotionSkip =>
      exact by_parts (fun h => by cases h) fun hlock => .inr (.inr hlock)
    | dialLock caller =>
      refine by_parts (fun hpc => .inr (.inl ?_)) (fun h => by cases h)
      cases caller <;> exact hpc
    | outboundLock | inboundLock | bootstrapLock =>
      exact by_parts (fun hpc => .inr (.inl hpc)) (fun h => by cases h)
    | stopLock =>
      refine by_parts (fun hpc => .inr (.inl hpc)) fun hlock => ?_
      dsimp only [hold_lock] at hlock
      split at hlock <;> cases hlock
    | outboundPost =>
      apply keep
      all_goals
        unfold outboundPostStep
        repeat' split
        all_goals rfl
    | dialRefused caller | dialGreet caller | dialAgain caller =>
      cases caller <;> exact keep rfl rfl
    | _ => exact keep rfl rfl
  | locked choice =>
    obtain ⟨k, hk, h⟩ := Option.bind_eq_some_iff.mp h
    have hm := lockedStep_cases hc hk h
    exact by_parts (fun hpc => .inr (.inl (hm.promotion_wait hpc))) fun hlock =>
      absurd hlock hm.not_promoteCheck
  | lifecycle l =>
    cases lifecycleStep_cases hc h with
    | install | handover => exact by_parts (fun hpc => .inr (.inl hpc)) (fun h => by cases h)
    | _ => exact keep rfl rfl

/-! ## The order of promotions -/

section

variable (A : SkbAllocator) (queueLimit : Nat)

/-- The step with which the promotion of `s` succeeds: its callbacks are installed. -/
def Promotes (s : SockId) (σ : State) (a : Action) : Prop :=
  σ.lock = some (.promoteSetup s) ∧
    ((σ.step A queueLimit a).any fun τ => decide (τ.lock = some .promoteRearm)) = true

instance (s : SockId) (σ : State) (a : Action) : Decidable (Promotes A queueLimit s σ a) :=
  inferInstanceAs (Decidable (_ ∧ _))

/-- The promotion of `s` has succeeded in the run `as`. -/
def Promoted (tempPeer : Bool) (addressing : Addressing) (as : List Action) (s : SockId) : Prop :=
  Transition.Happens (step A queueLimit) (Promotes A queueLimit s) (.init tempPeer addressing) as

instance (tempPeer : Bool) (addressing : Addressing) (as : List Action) (s : SockId) :
    Decidable (Promoted A queueLimit tempPeer addressing as s) :=
  inferInstanceAs (Decidable (Transition.Happens _ _ _ _))

/-- Ids are given once, and promotions succeed in their order: the candidate of a promotion is not
older than any promoted connection, and not newer than the generation. -/
structure RoamsInOrder (tempPeer : Bool) (addressing : Addressing) (as : List Action) (σ : State) :
    Prop where
  once : ∀ s m n, Action.kernel (.accept s m) ∈ as → Action.kernel (.accept s n) ∈ as → m = n
  used : ∀ s n, Action.kernel (.accept s n) ∈ as → (σ.socks s).stage ≠ .unused
  listed : ∀ s n, σ.Bears s n → Action.kernel (.accept s n) ∈ as
  candidate : ∀ t, σ.lock.bind Holder.candidate = some t →
    ∃ m, Action.kernel (.accept t m) ∈ as ∧ m ≤ σ.generation ∧
      ∀ s n, Promoted A queueLimit tempPeer addressing as s →
        Action.kernel (.accept s n) ∈ as → n ≤ m
  promoted : ∀ s, Promoted A queueLimit tempPeer addressing as s →
    ∃ n, Action.kernel (.accept s n) ∈ as ∧ n ≤ σ.generation

end

variable {A : SkbAllocator} {queueLimit : Nat} {tempPeer : Bool} {addressing : Addressing}
  {as : List Action}

theorem roamsInOrder_init :
    RoamsInOrder A queueLimit tempPeer addressing [] (.init tempPeer addressing) where
  once := (fun _ _ _ h => by cases h)
  used := (fun _ _ h => by cases h)
  listed := by
    rintro s n (h | h | h) <;> cases h
  candidate := (fun _ h => by cases h)
  promoted := (fun _ h => by cases h)

/-- The new id of an accepted socket is its only one. -/
theorem RoamsInOrder.ids {a : Action} (hi : RoamsInOrder A queueLimit tempPeer addressing as σ)
    (hc : σ.Control) (h : σ.step A queueLimit a = some τ) :
    (∀ s m n, Action.kernel (.accept s m) ∈ as ++ [a] → Action.kernel (.accept s n) ∈ as ++ [a] →
      m = n) ∧
    (∀ s n, Action.kernel (.accept s n) ∈ as ++ [a] → (τ.socks s).stage ≠ .unused) ∧
    ∀ s n, τ.Bears s n → Action.kernel (.accept s n) ∈ as ++ [a] := by
  by_cases hnew : ∀ s n, a ≠ .kernel (.accept s n)
  · have old {s : SockId} {n : Nat} (hmem : Action.kernel (.accept s n) ∈ as ++ [a]) :
        Action.kernel (.accept s n) ∈ as := by
      rcases List.mem_append.mp hmem with hmem | hmem
      · exact hmem
      · exact absurd (List.mem_singleton.mp hmem).symm (hnew s n)
    refine ⟨fun s m n hm hn => hi.once s m n (old hm) (old hn), fun s n hn hunused => ?_,
      fun s n hb => List.mem_append_left [a] (hi.listed s n (step_bears hc h hnew hb))⟩
    exact hi.used s n (old hn) ((step_ages hc h hnew s).unused hunused)
  · push Not at hnew
    obtain ⟨t, k, rfl⟩ := hnew
    obtain ⟨sk, hsk, rfl⟩ := Option.map_eq_some_iff.mp h
    obtain ⟨hunused, ⟨⟩⟩ := Option.ite_none_right_eq_some.mp hsk
    have mem {s : SockId} {n : Nat} : Action.kernel (.accept s n) ∈ as ++ [.kernel (.accept t k)] ↔
        Action.kernel (.accept s n) ∈ as ∨ (s = t ∧ n = k) := by
      simp
    -- The socket was unused, so it has no earlier id.
    have fresh {n : Nat} (hn : Action.kernel (.accept t n) ∈ as) : False := hi.used t n hn hunused
    refine ⟨?_, ?_, ?_⟩
    · intro s m n hm hn
      rcases mem.mp hm with hm | hm <;> rcases mem.mp hn with hn | hn
      · exact hi.once s m n hm hn
      · exact (fresh (hn.1 ▸ hm)).elim
      · exact (fresh (hm.1 ▸ hn)).elim
      · exact hm.2.trans hn.2.symm
    · intro s n hn
      by_cases hs : s = t
      · subst hs
        simp [KernelEvent.sock]
      · have := hi.used s n ((mem.mp hn).resolve_right fun h => hs h.1)
        simpa [KernelEvent.sock, hs] using this
    · intro s n hb
      rcases hb with hb | hb | hb
      · by_cases hs : s = t
        · subst hs
          have : k = n := by simpa [KernelEvent.sock] using hb
          exact mem.mpr (.inr ⟨rfl, this.symm⟩)
        · exact mem.mpr (.inl (hi.listed s n (.inl (by simpa [KernelEvent.sock, hs] using hb))))
      · exact mem.mpr (.inl (hi.listed s n (.inr (.inl hb))))
      · exact mem.mpr (.inl (hi.listed s n (.inr (.inr hb))))

theorem RoamsInOrder.step {a : Action} (hi : RoamsInOrder A queueLimit tempPeer addressing as σ)
    (hrun : Reaches A queueLimit tempPeer addressing as σ) (hc : σ.Control)
    (h : σ.step A queueLimit a = some τ) :
    RoamsInOrder A queueLimit tempPeer addressing (as ++ [a]) τ := by
  obtain ⟨honce, hused, hlisted⟩ := hi.ids hc h
  have hle := (step_promotionMove hc h).generation_le
  have hpromoted {s : SockId} : Promoted A queueLimit tempPeer addressing (as ++ [a]) s ↔
      Promoted A queueLimit tempPeer addressing as s ∨ Promotes A queueLimit s σ a :=
    Transition.happens_concat hrun
  -- A promoted socket had its id before this step.
  have id_of_promoted {s : SockId} {n : Nat} (hs : Promoted A queueLimit tempPeer addressing as s)
      (hn : Action.kernel (.accept s n) ∈ as ++ [a]) :
      Action.kernel (.accept s n) ∈ as ∧ n ≤ σ.generation := by
    obtain ⟨m, hm, hgen⟩ := hi.promoted s hs
    obtain rfl := honce s m n (List.mem_append_left [a] hm) hn
    exact ⟨hm, hgen⟩
  refine ⟨honce, hused, hlisted, fun t ht => ?_, fun s hs => ?_⟩
  · have holds (s : SockId) : ¬ Promotes A queueLimit s σ a := by
      rintro ⟨-, hany⟩
      simp only [h, Option.any_some, decide_eq_true_eq] at hany
      rw [hany] at ht
      cases ht
    have earlier {s : SockId} (hs : Promoted A queueLimit tempPeer addressing (as ++ [a]) s) :
        Promoted A queueLimit tempPeer addressing as s :=
      (hpromoted.mp hs).resolve_right (holds s)
    rcases step_candidate hc h ht with ht | hcheck
    · obtain ⟨m, hm, hgen, horder⟩ := hi.candidate t ht
      refine ⟨m, List.mem_append_left [a] hm, hgen.trans hle, fun s n hs hn => ?_⟩
      exact horder s n (earlier hs) (id_of_promoted (earlier hs) hn).1
    · refine ⟨τ.generation, List.mem_append_left [a] (hi.listed t _ (.inr (.inr hcheck))), le_rfl,
        fun s n hs hn => ?_⟩
      exact (id_of_promoted (earlier hs) hn).2.trans hle
  · rcases hpromoted.mp hs with hs | ⟨hlock, -⟩
    · obtain ⟨n, hn, hgen⟩ := hi.promoted s hs
      exact ⟨n, List.mem_append_left [a] hn, hgen.trans hle⟩
    · obtain ⟨m, hm, hgen, -⟩ := hi.candidate s (by rw [hlock]; rfl)
      exact ⟨m, List.mem_append_left [a] hm, hgen.trans hle⟩

theorem Reaches.roamsInOrder (h : Reaches A queueLimit tempPeer addressing as σ) :
    RoamsInOrder A queueLimit tempPeer addressing as σ := by
  have hmeets : Transition.Meets (step A queueLimit) (fun _ _ => True)
      (.init tempPeer addressing) as :=
    Transition.meets_of_forall_mem (fun _ _ _ => trivial) _
  exact Transition.run_history (I := RoamsInOrder A queueLimit tempPeer addressing)
    (fun _ _ _ _ hrun hi _ hstep => hi.step hrun (Reaches.control hrun) hstep)
    roamsInOrder_init hmeets h

/-- The generation of a peer never decreases. Once a connection has been promoted, no older one is,
and an observation on an older one, however late it is checked, neither changes the dial target nor
asks for a reconnect. -/
theorem roaming_generation_monotone (h : Reaches A queueLimit tempPeer addressing as σ) :
    (∀ a τ, σ.step A queueLimit a = some τ →
      σ.peer.addressing.tcpRoamingConnectionId ≤ τ.peer.addressing.tcpRoamingConnectionId) ∧
    ∀ s n, Promoted A queueLimit tempPeer addressing as s → Action.kernel (.accept s n) ∈ as →
      (∀ a t, Promotes A queueLimit t σ a →
        ∃ m, Action.kernel (.accept t m) ∈ as ∧ n ≤ m ∧
          ∀ k, Action.kernel (.accept t k) ∈ as → k = m) ∧
      ∀ (ep : Endpoint) (m : Nat), m < n →
        learnDialTarget σ.peer.addressing ep m = (σ.peer.addressing, false) ∧
        (wgSocketSetPeerEndpointInternal σ.device.transport σ.device.netifRunning
          σ.peer.conn.established σ.peer.addressing ep false).1.peerEndpoint =
            σ.peer.addressing.peerEndpoint ∧
        (wgSocketSetPeerEndpointInternal σ.device.transport σ.device.netifRunning
          σ.peer.conn.established σ.peer.addressing ep false).2 = .keep := by
  have hi := h.roamsInOrder
  refine ⟨fun a τ hstep => (step_promotionMove h.control hstep).generation_le,
    fun s n hs hn => ⟨fun a t ht => ?_, fun ep m hm => ⟨?_, ?_⟩⟩⟩
  · obtain ⟨m, hm, -, horder⟩ := hi.candidate t (by rw [ht.1]; rfl)
    exact ⟨m, hm, horder s n hs hn, fun k hk => hi.once t k m hk hm⟩
  · obtain ⟨k, hk, hgen⟩ := hi.promoted s hs
    obtain rfl := hi.once s n k hn hk
    have hstale : m < σ.peer.addressing.tcpRoamingConnectionId := hm.trans_le hgen
    simp [learnDialTarget, hstale]
  · exact observedEndpoint_keeps_target _ _ _ _ ep

/-- A second carrier is about to be promoted over a first. -/
def secondPromotionRun : List Action :=
  inboundRun ++ [.kernel (.accept 1 2), .request (.authenticated 2)] ++
    List.replicate 4 (.thread .promotion ⟨true, 1⟩) ++ List.replicate 11 (.locked ⟨true, 0⟩)

theorem roaming_generation_monotone_second : ∃ σ,
    Reaches exactAllocator 4 false .unset secondPromotionRun σ ∧
    (∃ m, Action.kernel (.accept 1 m) ∈ secondPromotionRun ∧ 1 ≤ m) ∧
    ∀ ep, learnDialTarget σ.peer.addressing ep 0 = (σ.peer.addressing, false) := by
  have hrun : ((Transition.run (step exactAllocator 4) (.init false .unset)
      secondPromotionRun).any fun σ =>
        decide (Promotes exactAllocator 4 1 σ (.locked ⟨true, 0⟩))) = true := by
    decide +kernel
  obtain ⟨σ, hσ, hcheck⟩ := Transition.exists_run_of_any hrun
  have hpromoted : Promoted exactAllocator 4 false .unset secondPromotionRun 0 := by
    decide +kernel
  obtain ⟨hnext, hlate⟩ :=
    (roaming_generation_monotone hσ).2 0 1 hpromoted (by decide +kernel)
  obtain ⟨m, hm, hle, -⟩ := hnext _ 1 (of_decide_eq_true hcheck)
  exact ⟨σ, hσ, ⟨m, hm, hle⟩, fun ep => (hlate ep 0 (by decide)).1⟩

end State

end WgTcp
