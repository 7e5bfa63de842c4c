import WgTcp.Listener.Entries

/-!
# A failed open

What an interface that could not be brought up leaves behind. The error path of
`wg_open` takes the listeners, the list and the UDP socket away, waits for the
threads that use them, and puts the requested port back. It does not stop the
configured peers: one that is not behind its stop barrier may own a carrier by
then. If they all are, nothing is left.
-/

namespace WgTcp

namespace Listener

open FirstMatch
open Netlink (SockAddr)

/-! ## Peers behind their stop barrier -/

/-- No carrier is there, and no promotion is queued or under way. -/
structure CarrierPeer.Quiet (p : CarrierPeer) : Prop where
  promotion : p.promotion = .idle
  work : p.promotionItem.work = false
  carriers : p.carriers = []

/-- The stages in which the peer with the index is behind its stop barrier. -/
def Control.barred : Control → Nat → Bool
  | .undoing .., _ | .failing _, _ | .closing .., _ => true
  | .stopping k, i => decide (i < k)
  | .quieting k, i => decide (i ≤ k)
  | _, _ => false

structure Barred (σ : State) : Prop where
  quiet : ∀ i p, σ.peers[i]? = some p → p.tcpStopping = true → σ.control ≠ .quieting i → p.Quiet
  barred : ∀ i p, σ.peers[i]? = some p → σ.control.barred i = true → p.tcpStopping = true

/-- The call that `wg_open` makes in a stage fails. -/
def State.openFails (σ : State) (ok ipv6 : Bool) : OpenStage → Bool
  | .udp | .thread4 => !ok
  | .authWq => !(σ.authWq || ok)
  | .listen4 => decide (σ.incomingPort = 0) ||
      (decide (σ.listenSocket4 = .absent ∧ σ.listenSocket6 = .absent) && !ok)
  | .listen6 => ipv6 && !ok
  | .thread6 => decide (σ.listenSocket6 ≠ .absent) && !ok
  | .publish _ | .peers _ => false

def failsStopped (σ : State) : Action → Bool
  | .control (.proceed ok _ ipv6) =>
      match σ.control with
      | .opening stage _ => !σ.openFails ok ipv6 stage || σ.peers.all (·.tcpStopping)
      | _ => true
  | _ => true

/-- When a call of `wg_open` fails, every configured peer is behind its stop barrier. -/
def FailsStopped (σ : State) (a : Action) : Prop := failsStopped σ a = true

instance (σ : State) (a : Action) : Decidable (FailsStopped σ a) :=
  inferInstanceAs (Decidable (_ = true))

section Barriers

variable {σ σ' : State}

theorem barred_init : Barred State.init where
  quiet := by intro i p hp; cases hp
  barred := by intro i p hp; cases hp

theorem Barred.of_eq (h : Barred σ) (hpeers : σ'.peers = σ.peers)
    (hcontrol : σ'.control = σ.control) : Barred σ' where
  quiet := by rw [hpeers, hcontrol]; exact h.quiet
  barred := by rw [hpeers, hcontrol]; exact h.barred

/-- A step of a peer, which does not move its barrier. -/
theorem Barred.setPeer (h : Barred σ) {i : Nat} {p p' : CarrierPeer}
    (hp : σ.peers[i]? = some p) (hpeers : σ'.peers = σ.peers.set i p')
    (hcontrol : σ'.control = σ.control) (hstopping : p'.tcpStopping = p.tcpStopping)
    (hquiet : p.tcpStopping = true → p.Quiet → p'.Quiet) : Barred σ' := by
  have hi : i < σ.peers.length := (List.getElem?_eq_some_iff.mp hp).1
  have hcase {j : Nat} {q : CarrierPeer} (hq : σ'.peers[j]? = some q) :
      (i = j ∧ q = p') ∨ σ.peers[j]? = some q := by
    rw [hpeers, List.getElem?_set] at hq
    by_cases hij : i = j
    · rw [if_pos hij, if_pos hi] at hq
      exact .inl ⟨hij, (Option.some.inj hq).symm⟩
    · rw [if_neg hij] at hq
      exact .inr hq
  constructor
  · intro j q hq hstop hnot
    rw [hcontrol] at hnot
    rcases hcase hq with ⟨rfl, rfl⟩ | hq
    · rw [hstopping] at hstop
      exact hquiet hstop (h.quiet i p hp hstop hnot)
    · exact h.quiet j q hq hstop hnot
  · intro j q hq hbarred
    rw [hcontrol] at hbarred
    rcases hcase hq with ⟨rfl, rfl⟩ | hq
    · rw [hstopping]
      exact h.barred i p hp hbarred
    · exact h.barred j q hq hbarred

/-- A stage of open or stop that leaves the peers alone. -/
theorem Barred.stage (h : Barred σ) (hpeers : σ'.peers = σ.peers)
    (hquieting : ∀ i, σ.control ≠ .quieting i)
    (hbarred : ∀ i p, σ.peers[i]? = some p → σ'.control.barred i = true →
      p.tcpStopping = true) : Barred σ' where
  quiet i p hp hstop _ := h.quiet i p (hpeers ▸ hp) hstop (hquieting i)
  barred i p hp := hbarred i p (hpeers ▸ hp)

theorem promotionStep_barred {i : Nat} {ok : Bool} {p : CarrierPeer} (h : Barred σ)
    (hp : σ.peers[i]? = some p) (hstep : promotionStep σ i ok p = some σ') : Barred σ' := by
  -- A quiet peer has no step to make.
  have hidle (hquiet : p.Quiet) : False := by
    simp [promotionStep, hquiet.promotion, hquiet.work] at hstep
  unfold promotionStep at hstep
  repeat' split at hstep
  all_goals cases hstep
  all_goals exact h.setPeer hp rfl rfl rfl fun _ hquiet => (hidle hquiet).elim

theorem openStep_barred {stage : OpenStage} {requested port : Nat} {ok ipv6 : Bool}
    (h : Barred σ) (hcontrol : σ.control = .opening stage requested)
    (hcond : FailsStopped σ (.control (.proceed ok port ipv6)))
    (hstep : openStep σ requested ok port ipv6 stage = some σ') : Barred σ' := by
  have hquieting (i : Nat) : σ.control ≠ .quieting i := by
    rw [hcontrol]
    intro h
    cases h
  have hall (hfails : σ.openFails ok ipv6 stage = true) (i : Nat) (p : CarrierPeer)
      (hp : σ.peers[i]? = some p) : p.tcpStopping = true := by
    simp only [FailsStopped, failsStopped, hcontrol, hfails, Bool.not_true, Bool.false_or,
      List.all_eq_true] at hcond
    exact hcond p (List.mem_of_getElem? hp)
  have none_barred {τ : State} (hpeers : τ.peers = σ.peers)
      (hnone : ∀ i, τ.control.barred i = false) : Barred τ := by
    apply h.stage hpeers hquieting
    intro i p _ hbarred
    rw [hnone i] at hbarred
    cases hbarred
  have fails {τ : State} (hpeers : τ.peers = σ.peers)
      (hfails : σ.openFails ok ipv6 stage = true) : Barred τ :=
    h.stage hpeers hquieting fun i p hp _ => hall hfails i p hp
  cases stage with
  | peers k =>
    simp only [openStep] at hstep
    split at hstep
    · cases hstep
      exact none_barred rfl fun _ => rfl
    · rename_i p hp
      cases hstep
      constructor
      · intro i q hq hstop _
        have hget : (σ.peers.set k { p with tcpStopping := false })[i]? = some q := hq
        by_cases hki : k = i
        · subst hki
          rw [List.getElem?_set_self (List.getElem?_eq_some_iff.mp hp).1] at hget
          cases hget
          cases hstop
        · rw [List.getElem?_set_ne hki] at hget
          exact h.quiet i q hget hstop (hquieting i)
      · intro i q _ hbarred
        cases hbarred
  | udp =>
    simp only [openStep] at hstep
    repeat' split at hstep
    all_goals cases hstep
    all_goals exact none_barred rfl fun _ => rfl
  | authWq =>
    simp only [openStep] at hstep
    split at hstep <;> rename_i hwq <;> cases hstep
    · exact none_barred rfl fun _ => rfl
    · exact fails rfl (by simpa [State.openFails] using hwq)
  | listen4 =>
    simp only [openStep] at hstep
    split at hstep
    · rename_i hport
      cases hstep
      exact fails rfl (by simp [State.openFails, hport])
    split at hstep
    · cases hstep
      exact none_barred rfl fun _ => rfl
    rename_i hsockets
    split at hstep <;> rename_i hok <;> cases hstep
    · exact none_barred rfl fun _ => rfl
    · rw [not_or, not_not, not_not] at hsockets
      exact fails rfl (by simp [State.openFails, hsockets, hok])
  | listen6 =>
    simp only [openStep] at hstep
    split at hstep
    · cases hstep
      exact none_barred rfl fun _ => rfl
    rename_i hipv6
    split at hstep <;> rename_i hok <;> cases hstep
    · exact none_barred rfl fun _ => rfl
    · exact fails rfl (by simpa [State.openFails, hok] using hipv6)
  | publish v6 =>
    cases hstep
    exact none_barred rfl fun _ => rfl
  | thread4 =>
    simp only [openStep] at hstep
    split at hstep <;> rename_i hok <;> cases hstep
    · exact none_barred rfl fun _ => rfl
    · exact fails rfl (by simp [State.openFails, hok])
  | thread6 =>
    simp only [openStep] at hstep
    split at hstep
    · cases hstep
      exact none_barred rfl fun _ => rfl
    rename_i hsocket
    split at hstep <;> rename_i hok <;> cases hstep
    · exact none_barred rfl fun _ => rfl
    · exact fails rfl (by simp [State.openFails, hsocket, hok])

theorem controlStep_barred {c : ControlChoice} (h : Barred σ)
    (hcond : FailsStopped σ (.control c)) (hstep : controlStep σ σ.control c = some σ') :
    Barred σ' := by
  cases hcontrol : σ.control with
  | opening stage requested =>
    rw [hcontrol] at hstep
    cases c with
    | proceed ok port ipv6 => exact openStep_barred h hcontrol hcond hstep
    | _ => cases hstep
  | undoing stage requested =>
    have hall := h.barred
    rw [hcontrol] at hstep hall
    cases c with
    | proceed ok port ipv6 =>
      simp only [controlStep, Option.map_eq_some_iff] at hstep
      obtain ⟨⟨τ, next⟩, hrelease, hτ⟩ := hstep
      have hpeers := (releaseStep_kept hrelease).2.2.2.2.1
      cases next <;> cases hτ <;>
        exact h.stage hpeers (by rw [hcontrol]; intro _ h; cases h) fun i p hp _ => hall i p hp rfl
    | _ => cases hstep
  | closing stage requested =>
    have hall := h.barred
    rw [hcontrol] at hstep hall
    cases c with
    | proceed ok port ipv6 =>
      cases stage with
      | releasing stage =>
        simp only [controlStep, closeStep, Option.map_eq_some_iff] at hstep
        obtain ⟨⟨τ, next⟩, hrelease, hτ⟩ := hstep
        have hpeers := (releaseStep_kept hrelease).2.2.2.2.1
        cases next <;> cases hτ <;>
          exact h.stage hpeers (by rw [hcontrol]; intro _ h; cases h) fun i p hp _ => hall i p hp
            rfl
      | _ =>
        simp only [controlStep, closeStep, State.cancelCleanup] at hstep
        split at hstep <;> cases hstep
        all_goals
          exact h.stage rfl (by rw [hcontrol]; intro _ h; cases h) fun i p hp _ => hall i p hp rfl
    | _ => cases hstep
  | failing requested =>
    have hall := h.barred
    rw [hcontrol] at hstep hall
    cases c <;> cases hstep
    exact h.stage rfl (by rw [hcontrol]; intro _ h; cases h) fun i p hp _ => hall i p hp rfl
  | stopping k =>
    have hbelow := h.barred
    have hquiet := h.quiet
    rw [hcontrol] at hstep hbelow hquiet
    cases c with
    | proceed ok port ipv6 =>
      simp only [controlStep] at hstep
      split at hstep
      · rename_i hend
        cases hstep
        refine h.stage rfl (by rw [hcontrol]; intro _ h; cases h) ?_
        intro i p hp _
        have hi : i < σ.peers.length := (List.getElem?_eq_some_iff.mp hp).1
        have hk : σ.peers.length ≤ k := List.getElem?_eq_none_iff.mp hend
        exact hbelow i p hp (decide_eq_true (by omega))
      · rename_i p hp
        have hk : k < σ.peers.length := (List.getElem?_eq_some_iff.mp hp).1
        cases hstep
        constructor
        · intro i q hq hstop hnot
          have hget : (σ.peers.set k { p with tcpStopping := true })[i]? = some q := hq
          by_cases hki : k = i
          · subst hki
            exact absurd rfl hnot
          · rw [List.getElem?_set_ne hki] at hget
            exact hquiet i q hget hstop (fun h => by cases h)
        · intro i q hq hbarred
          have hget : (σ.peers.set k { p with tcpStopping := true })[i]? = some q := hq
          have hle : i ≤ k := of_decide_eq_true hbarred
          by_cases hki : k = i
          · subst hki
            rw [List.getElem?_set_self hk] at hget
            cases hget
            rfl
          · rw [List.getElem?_set_ne hki] at hget
            exact hbelow i q hget (decide_eq_true (by omega))
    | _ => cases hstep
  | quieting k =>
    have hbelow := h.barred
    have hquiet := h.quiet
    rw [hcontrol] at hstep hbelow hquiet
    cases c with
    | proceed ok port ipv6 =>
      simp only [controlStep] at hstep
      split at hstep
      · cases hstep
      · rename_i p hp
        have hk : k < σ.peers.length := (List.getElem?_eq_some_iff.mp hp).1
        split at hstep <;> rename_i hidle <;> cases hstep
        -- The peer has been waited for and its carriers are gone.
        have hcase {i : Nat} {q : CarrierPeer} (hq : (σ.peers.set k { p with
            promotionItem := { p.promotionItem with work := false }, carriers := [] })[i]? =
              some q) : (q.Quiet ∧ q.tcpStopping = p.tcpStopping ∧ k = i) ∨
            (σ.peers[i]? = some q ∧ k ≠ i) := by
          by_cases hki : k = i
          · subst hki
            rw [List.getElem?_set_self hk] at hq
            cases hq
            exact .inl ⟨⟨hidle, rfl, rfl⟩, rfl, rfl⟩
          · rw [List.getElem?_set_ne hki] at hq
            exact .inr ⟨hq, hki⟩
        constructor
        · intro i q hq hstop _
          rcases hcase hq with ⟨hq, -, -⟩ | ⟨hq, hne⟩
          · exact hq
          · exact hquiet i q hq hstop fun heq => hne (Control.quieting.inj heq)
        · intro i q hq hbarred
          have hlt : i < k + 1 := of_decide_eq_true hbarred
          rcases hcase hq with ⟨-, hstop, rfl⟩ | ⟨hq, -⟩
          · exact hstop.trans (hbelow k p hp (decide_eq_true (by omega)))
          · exact hbelow i q hq (decide_eq_true (by omega))
    | _ => cases hstep
  | _ =>
    rw [hcontrol] at hstep
    cases c <;> cases hstep
    refine h.stage rfl (by rw [hcontrol]; intro _ h; cases h) ?_
    intro i p hp hbarred
    simp [Control.barred] at hbarred

theorem step_barred {a : Action} (h : Barred σ) (hcond : FailsStopped σ a)
    (hstep : step σ a = some σ') : Barred σ' := by
  cases a with
  | control c => exact controlStep_barred h hcond hstep
  | listener f c => cases listenerStep_move hstep <;> exact h.of_eq (by simp) (by simp)
  | worker =>
    simp only [step, workerStep] at hstep
    repeat' split at hstep
    all_goals cases hstep
    all_goals exact h.of_eq rfl rfl
  | promotion i ok =>
    obtain ⟨p, hp, hpromotion⟩ := Option.bind_eq_some_iff.mp hstep
    exact promotionStep_barred h hp hpromotion
  | request i connectionId =>
    obtain ⟨p, hp, rfl⟩ := Option.map_eq_some_iff.mp hstep
    unfold requestStep
    split
    · rename_i hguard
      simp only [Bool.and_eq_true, Bool.not_eq_true'] at hguard
      refine h.setPeer hp rfl rfl rfl fun hstop => ?_
      rw [hguard.1] at hstop
      cases hstop
    · exact h
  | dial i =>
    obtain ⟨p, hp, hdial⟩ := Option.bind_eq_some_iff.mp hstep
    split at hdial <;> rename_i hguard <;> cases hdial
    simp only [Bool.and_eq_true, Bool.not_eq_true'] at hguard
    refine h.setPeer hp rfl rfl rfl fun hstop => ?_
    rw [hguard.1.1] at hstop
    cases hstop
  | drop i s =>
    obtain ⟨p, hp, rfl⟩ := Option.map_eq_some_iff.mp hstep
    refine h.setPeer hp rfl rfl rfl fun _ hquiet => ⟨hquiet.promotion, hquiet.work, ?_⟩
    simp [hquiet.carriers]
  | peerCreate =>
    simp only [step] at hstep
    split at hstep <;> rename_i hresting <;> cases hstep
    have hcase {i : Nat} {q : CarrierPeer} (hq : (σ.peers ++ [CarrierPeer.create])[i]? = some q) :
        σ.peers[i]? = some q ∨ q = CarrierPeer.create := by
      rw [List.getElem?_append] at hq
      split at hq
      · exact .inl hq
      · exact .inr (by simpa using List.mem_of_getElem? hq)
    constructor
    · intro i q hq hstop hnot
      rcases hcase hq with hq | rfl
      · exact h.quiet i q hq hstop hnot
      · cases hstop
    · intro i q hq hbarred
      have : σ.control.barred i = false := by
        cases hcontrol : σ.control <;> rw [hcontrol] at hresting <;> first | rfl | cases hresting
      rw [this] at hbarred
      cases hbarred
  | _ =>
    simp only [step] at hstep
    repeat' split at hstep
    all_goals cases hstep
    all_goals exact h.of_eq rfl rfl

end Barriers

/-! ## Nothing under way -/

/-- The stages from the second cancellation of the sweep to the start of the first thread. -/
def Control.settled : Control → Bool
  | .down | .failed _ | .closing .reinit _ => true
  | .opening stage _ => stage.before .v4
  | _ => false

theorem Control.drained_of_settled {c : Control} (h : c.settled = true) : c.drained = true := by
  cases c with
  | closing stage _ => cases stage <;> first | rfl | cases h
  | _ => exact h

theorem Control.entry_of_settled {c : Control} (h : c.settled = true) : c.entry = none := by
  cases c with
  | closing stage _ => cases stage <;> first | rfl | cases h
  | _ => rfl

structure Settled (σ : State) : Prop where
  worker : σ.worker = .idle
  work : σ.cleanupWork = false
  kicks : σ.kicks = []
  promotions : ∀ p ∈ σ.peers, p.promotion.entry = none

section Settling

variable {σ σ' : State}

theorem Settled.entries (h : Settled σ) (hstaged : Staged σ) (hsettled : σ.control.settled = true) :
    σ.entries = [] := by
  have hdrained := Control.drained_of_settled hsettled
  rw [List.eq_nil_iff_forall_not_mem]
  intro e he
  rcases mem_entries.mp he with he | ⟨f, he⟩ | he | ⟨p, hp, he⟩ | he
  · rw [hstaged.drained hdrained] at he
    cases he
  · rw [hstaged.joined f (Control.joined_of_drained hdrained f)] at he
    cases he
  · rw [h.worker] at he
    cases he
  · rw [h.promotions p hp] at he
    cases he
  · rw [Control.entry_of_settled hsettled] at he
    cases he

/-- A stage that starts nothing. -/
theorem Settled.stage (h : Settled σ) (hworker : σ'.worker = σ.worker)
    (hwork : σ'.cleanupWork = σ.cleanupWork) (hkicks : σ'.kicks = σ.kicks)
    (hpeers : σ'.peers = σ.peers) : Settled σ' where
  worker := hworker.trans h.worker
  work := hwork.trans h.work
  kicks := hkicks.trans h.kicks
  promotions := by rw [hpeers]; exact h.promotions

theorem Settled.setPeer (h : Settled σ) {i : Nat} {p : CarrierPeer} (hworker : σ'.worker = σ.worker)
    (hwork : σ'.cleanupWork = σ.cleanupWork) (hkicks : σ'.kicks = σ.kicks)
    (hpeers : σ'.peers = σ.peers.set i p) (hp : p.promotion.entry = none) : Settled σ' where
  worker := hworker.trans h.worker
  work := hwork.trans h.work
  kicks := hkicks.trans h.kicks
  promotions := by
    rw [hpeers]
    intro q hq
    rcases List.mem_or_eq_of_mem_set hq with hq | rfl
    · exact h.promotions q hq
    · exact hp

theorem promotionStep_settled {i : Nat} {ok : Bool} {p : CarrierPeer} (h : Settled σ)
    (hp : σ.peers[i]? = some p) (hnil : σ.tracking.list = [])
    (hstep : promotionStep σ i ok p = some σ') : Settled σ' := by
  have hentry := h.promotions p (List.mem_of_getElem? hp)
  unfold promotionStep at hstep
  split at hstep
  case h_3 connectionId hpc =>
    -- There is nothing to claim.
    have hclaim :
        claimAuthenticated σ.clock connectionId (!ok) σ.tracking = (none, σ.tracking) := by
      simp [claimAuthenticated, hnil, firstMatch]
    rw [hclaim] at hstep
    cases hstep
    exact h.setPeer rfl rfl rfl rfl rfl
  case h_4 hpc =>
    rw [hpc] at hentry
    cases hentry
  case h_6 hpc =>
    rw [hpc] at hentry
    cases hentry
  all_goals
    split at hstep <;> cases hstep
    all_goals exact h.setPeer rfl rfl rfl rfl rfl

/-- The second cancellation waits for the worker; by then no entry is left that a callback could
belong to. -/
theorem cancelAgain_settled {requested : Option Nat} (hstaged : Staged σ) (hkicked : Kicked σ)
    (hbarred : Barred σ) (hcontrol : σ.control = .closing .cancelAgain requested)
    (hworker : σ.worker = .idle) :
    Settled { σ with cleanupWork := false, control := .closing .reinit requested } := by
  have hpromotions (p : CarrierPeer) (hp : p ∈ σ.peers) : p.promotion.entry = none := by
    obtain ⟨i, hi⟩ := List.mem_iff_getElem?.mp hp
    have hstop := hbarred.barred i p hi (by rw [hcontrol]; rfl)
    rw [(hbarred.quiet i p hi hstop (by rw [hcontrol]; intro h; cases h)).promotion]
    rfl
  refine ⟨hworker, rfl, ?_, hpromotions⟩
  rw [List.eq_nil_iff_forall_not_mem]
  intro peer hpeer
  obtain ⟨e, he, -⟩ := hkicked peer hpeer
  have hdrained : σ.control.drained = true := by rw [hcontrol]; rfl
  rcases mem_entries.mp he with he | ⟨f, he⟩ | he | ⟨p, hp, he⟩ | he
  · rw [hstaged.drained hdrained] at he
    cases he
  · rw [hstaged.joined f (Control.joined_of_drained hdrained f)] at he
    cases he
  · rw [hworker] at he
    cases he
  · rw [hpromotions p hp] at he
    cases he
  · rw [hcontrol] at he
    cases he

theorem controlStep_settled {c : ControlChoice} (hstaged : Staged σ) (hkicked : Kicked σ)
    (hbarred : Barred σ) (h : σ.control.settled = true → Settled σ)
    (hstep : controlStep σ σ.control c = some σ') (hsettled : σ'.control.settled = true) :
    Settled σ' := by
  cases hcontrol : σ.control with
  | opening stage requested =>
    rw [hcontrol] at h hstep
    cases c with
    | proceed ok port ipv6 =>
      cases stage with
      | peers i =>
        simp only [controlStep, openStep] at hstep
        split at hstep <;> cases hstep <;> cases hsettled
      | _ =>
        simp only [controlStep, openStep] at hstep
        repeat' split at hstep
        all_goals cases hstep
        all_goals first
          | exact (h rfl).stage rfl rfl rfl rfl
          | cases hsettled
    | _ => cases hstep
  | closing stage requested =>
    rw [hcontrol] at h hstep
    cases c with
    | proceed ok port ipv6 =>
      cases stage with
      | releasing stage =>
        simp only [controlStep, closeStep, Option.map_eq_some_iff] at hstep
        obtain ⟨⟨τ, next⟩, -, hτ⟩ := hstep
        cases next <;> cases hτ <;> cases hsettled
      | cancelAgain =>
        simp only [controlStep, closeStep, State.cancelCleanup] at hstep
        split at hstep <;> rename_i hworker <;> cases hstep
        have hdone := cancelAgain_settled hstaged hkicked hbarred hcontrol hworker
        exact hdone
      | reinit => cases requested <;> cases hstep <;> exact (h rfl).stage rfl rfl rfl rfl
      | _ =>
        simp only [controlStep, closeStep, State.cancelCleanup] at hstep
        split at hstep <;> cases hstep
        all_goals cases hsettled
    | _ => cases hstep
  | undoing stage requested =>
    rw [hcontrol] at hstep
    cases c with
    | proceed ok port ipv6 =>
      simp only [controlStep, Option.map_eq_some_iff] at hstep
      obtain ⟨⟨τ, next⟩, -, hτ⟩ := hstep
      cases next <;> cases hτ <;> cases hsettled
    | _ => cases hstep
  | down =>
    rw [hcontrol] at h hstep
    cases c <;> cases hstep
    exact (h rfl).stage rfl rfl rfl rfl
  | failed requested =>
    rw [hcontrol] at h hstep
    cases c <;> cases hstep
    exact (h rfl).stage rfl rfl rfl rfl
  | _ =>
    rw [hcontrol] at hstep
    cases c <;> simp only [controlStep] at hstep <;> repeat' split at hstep
    all_goals cases hstep
    all_goals cases hsettled

theorem step_settled {a : Action} (hstaged : Staged σ) (hkicked : Kicked σ) (hbarred : Barred σ)
    (h : σ.control.settled = true → Settled σ) (hstep : step σ a = some σ')
    (hsettled : σ'.control.settled = true) : Settled σ' := by
  by_cases hcontrol : ∃ c, a = .control c
  · obtain ⟨c, rfl⟩ := hcontrol
    exact controlStep_settled hstaged hkicked hbarred h hstep hsettled
  have hsame : σ.control.settled = true := by
    by_cases hlistener : ∃ f c, a = .listener f c
    · obtain ⟨f, c, rfl⟩ := hlistener
      have hmove := listenerStep_move hstep
      rw [← hsettled]
      cases hmove <;> simp
    · rw [← (step_beside hstep (fun f c heq => hlistener ⟨f, c, heq⟩)
        (fun c heq => hcontrol ⟨c, heq⟩)).1]
      exact hsettled
  have hnow := h hsame
  have hdrained := Control.drained_of_settled hsame
  have hentries := hnow.entries hstaged hsame
  cases a with
  | control c => exact absurd ⟨c, rfl⟩ hcontrol
  | listener f c =>
    exact absurd (hstaged.joined f (Control.joined_of_drained hdrained f))
      (listenerStep_move hstep).there
  | worker =>
    simp only [step, workerStep, hnow.worker, hnow.work] at hstep
    cases hstep
  | kickCheck peer =>
    simp only [step, hentries, List.any_nil, Bool.and_false] at hstep
    cases hstep
  | kickQueue peer =>
    simp only [step, hnow.kicks, List.contains_nil] at hstep
    cases hstep
  | promotion i ok =>
    obtain ⟨p, hp, hpromotion⟩ := Option.bind_eq_some_iff.mp hstep
    exact promotionStep_settled hnow hp (hstaged.drained hdrained) hpromotion
  | request i connectionId =>
    obtain ⟨p, hp, rfl⟩ := Option.map_eq_some_iff.mp hstep
    unfold requestStep
    split
    · exact hnow.setPeer rfl rfl rfl rfl (hnow.promotions p (List.mem_of_getElem? hp))
    · exact hnow
  | dial i =>
    obtain ⟨p, hp, hdial⟩ := Option.bind_eq_some_iff.mp hstep
    split at hdial <;> cases hdial
    exact hnow.setPeer rfl rfl rfl rfl (hnow.promotions p (List.mem_of_getElem? hp))
  | drop i s =>
    obtain ⟨p, hp, rfl⟩ := Option.map_eq_some_iff.mp hstep
    exact hnow.setPeer rfl rfl rfl rfl (hnow.promotions p (List.mem_of_getElem? hp))
  | peerCreate =>
    simp only [step] at hstep
    split at hstep <;> cases hstep
    refine ⟨hnow.worker, hnow.work, hnow.kicks, ?_⟩
    intro p hp
    rcases List.mem_append.mp hp with hp | hp
    · exact hnow.promotions p hp
    · rw [List.mem_singleton.mp hp]
      rfl
  | _ =>
    simp only [step] at hstep
    repeat' split at hstep
    all_goals cases hstep
    all_goals exact hnow.stage rfl rfl rfl rfl

end Settling

/-! ## Sockets and port -/

/-- The stages without a listen socket. -/
def Control.unlistened : Control → Bool
  | .down | .failed _ | .failing _ => true
  | .opening (.thread4) _ | .opening (.thread6) _ | .opening (.peers _) _ => false
  | .opening .. => true
  | .closing (.releasing _) _ => false
  | .closing .. => true
  | _ => false

/-- The stages without a UDP socket. -/
def Control.unbound : Control → Bool
  | .down | .failed _ | .opening .udp _ => true
  | _ => false

/-- The port that the open under way was asked for. -/
def Control.requested : Control → Option Nat
  | .failed requested | .opening _ requested | .undoing _ requested | .failing requested =>
      some requested
  | .closing _ requested => requested
  | _ => none

structure Bare (σ : State) : Prop where
  listen : σ.control.unlistened = true → σ.listenSocket4 = .absent ∧ σ.listenSocket6 = .absent
  udp : σ.control.unbound = true → σ.udpSocket = false
  port : ∀ requested, σ.control = .opening .udp requested → σ.incomingPort = requested

section Sockets

variable {σ σ' : State}

theorem bare_init : Bare State.init where
  listen := fun _ => ⟨rfl, rfl⟩
  udp := fun _ => rfl
  port := (fun _ h => by cases h)

theorem controlStep_bare {c : ControlChoice} (h : Bare σ)
    (hstep : controlStep σ σ.control c = some σ') : Bare σ' := by
  have hlisten := h.listen
  have hudp := h.udp
  cases hcontrol : σ.control with
  | opening stage requested =>
    rw [hcontrol] at hstep hlisten hudp
    have hport := h.port requested
    rw [hcontrol] at hport
    cases c with
    | proceed ok port ipv6 =>
      cases stage <;> simp only [controlStep, openStep] at hstep <;> repeat' split at hstep
      all_goals cases hstep
      all_goals
        refine ⟨fun hnone => ?_, fun hnone => ?_, fun r hr => ?_⟩
        · first | exact hlisten rfl | cases hnone
        · first | exact hudp rfl | cases hnone
        · cases hr
    | _ => cases hstep
  | undoing stage requested =>
    rw [hcontrol] at hstep
    cases c with
    | proceed ok port ipv6 =>
      cases stage <;> simp only [controlStep, releaseStep] at hstep <;> repeat' split at hstep
      all_goals cases hstep
      all_goals
        refine ⟨fun hnone => ?_, fun hnone => ?_, fun r hr => ?_⟩
        · first | exact ⟨rfl, rfl⟩ | cases hnone
        · cases hnone
        · cases hr
    | _ => cases hstep
  | closing stage requested =>
    rw [hcontrol] at hstep hlisten
    cases c with
    | proceed ok port ipv6 =>
      cases stage with
      | releasing stage =>
        cases stage <;> simp only [controlStep, closeStep, releaseStep] at hstep <;>
          repeat' split at hstep
        all_goals cases hstep
        all_goals
          refine ⟨fun hnone => ?_, fun hnone => ?_, fun r hr => ?_⟩
          · first | exact ⟨rfl, rfl⟩ | cases hnone
          · cases hnone
          · cases hr
      | reinit =>
        cases requested <;> cases hstep <;>
          exact ⟨fun _ => hlisten rfl, fun _ => rfl, fun r hr => by cases hr⟩
      | _ =>
        simp only [controlStep, closeStep, State.cancelCleanup] at hstep
        split at hstep <;> cases hstep
        all_goals
          exact ⟨fun _ => hlisten rfl, fun hnone => (by cases hnone), fun r hr => by cases hr⟩
    | _ => cases hstep
  | down =>
    rw [hcontrol] at hstep hlisten hudp
    cases c <;> cases hstep
    refine ⟨fun _ => hlisten rfl, fun _ => hudp rfl, fun r hr => ?_⟩
    cases hr
    rfl
  | failed requested =>
    rw [hcontrol] at hstep hlisten hudp
    cases c <;> cases hstep
    refine ⟨fun _ => hlisten rfl, fun _ => hudp rfl, fun r hr => ?_⟩
    cases hr
    rfl
  | _ =>
    rw [hcontrol] at hstep
    cases c <;> simp only [controlStep] at hstep <;> repeat' split at hstep
    all_goals cases hstep
    all_goals
      exact ⟨fun hnone => (by cases hnone), fun hnone => (by cases hnone), fun r hr => by cases hr⟩

theorem Bare.of_eq (h : Bare σ) (hcontrol : σ'.control = σ.control)
    (h4 : σ'.listenSocket4 = σ.listenSocket4) (h6 : σ'.listenSocket6 = σ.listenSocket6)
    (hudp : σ'.udpSocket = σ.udpSocket) (hport : σ'.incomingPort = σ.incomingPort) : Bare σ' where
  listen := by rw [hcontrol, h4, h6]; exact h.listen
  udp := by rw [hcontrol, hudp]; exact h.udp
  port := by rw [hcontrol, hport]; exact h.port

theorem step_bare {a : Action} (h : Bare σ) (hstep : step σ a = some σ') : Bare σ' := by
  cases a with
  | control c => exact controlStep_bare h hstep
  | listener f c =>
    cases listenerStep_move hstep <;> cases f <;> exact h.of_eq rfl rfl rfl rfl rfl
  | worker =>
    simp only [step, workerStep] at hstep
    repeat' split at hstep
    all_goals cases hstep
    all_goals exact h.of_eq rfl rfl rfl rfl rfl
  | promotion i ok =>
    obtain ⟨p, hp, hpromotion⟩ := Option.bind_eq_some_iff.mp hstep
    unfold promotionStep at hpromotion
    repeat' split at hpromotion
    all_goals cases hpromotion
    all_goals exact h.of_eq rfl rfl rfl rfl rfl
  | request i connectionId =>
    obtain ⟨p, hp, rfl⟩ := Option.map_eq_some_iff.mp hstep
    unfold requestStep
    split <;> exact h.of_eq rfl rfl rfl rfl rfl
  | dial i =>
    obtain ⟨p, hp, hdial⟩ := Option.bind_eq_some_iff.mp hstep
    split at hdial <;> cases hdial
    exact h.of_eq rfl rfl rfl rfl rfl
  | drop i s =>
    obtain ⟨p, hp, rfl⟩ := Option.map_eq_some_iff.mp hstep
    exact h.of_eq rfl rfl rfl rfl rfl
  | setPort port =>
    have hlisten := h.listen
    have hudp := h.udp
    simp only [step] at hstep
    split at hstep
    all_goals cases hstep
    all_goals
      rename_i hcontrol
      refine ⟨hlisten, hudp, fun r hr => ?_⟩
      cases hcontrol.symm.trans hr
  | _ =>
    simp only [step] at hstep
    repeat' split at hstep
    all_goals cases hstep
    all_goals exact h.of_eq rfl rfl rfl rfl rfl

/-- Only the next open asks for another port. -/
theorem step_requested {a : Action} (hopen : a ≠ .control .openDevice)
    (hstep : step σ a = some σ') :
    σ'.control.requested = σ.control.requested ∨ σ'.control.requested = none := by
  by_cases hcontrol : ∃ c, a = .control c
  · obtain ⟨c, rfl⟩ := hcontrol
    have hnow : step σ (.control c) = controlStep σ σ.control c := rfl
    rw [hnow] at hstep
    cases c with
    | openDevice => exact absurd rfl hopen
    | stopDevice =>
      cases hcontrol : σ.control <;> rw [hcontrol] at hstep <;> cases hstep
      exact .inl rfl
    | proceed ok port ipv6 =>
      cases hcontrol : σ.control with
      | opening stage requested =>
        rw [hcontrol] at hstep
        cases stage <;> simp only [controlStep, openStep] at hstep <;> repeat' split at hstep
        all_goals cases hstep
        all_goals first | exact .inl rfl | exact .inr rfl
      | undoing stage requested =>
        rw [hcontrol] at hstep
        simp only [controlStep, Option.map_eq_some_iff] at hstep
        obtain ⟨⟨τ, next⟩, -, hτ⟩ := hstep
        cases next <;> cases hτ <;> exact .inl rfl
      | closing stage requested =>
        rw [hcontrol] at hstep
        cases stage with
        | releasing stage =>
          simp only [controlStep, closeStep, Option.map_eq_some_iff] at hstep
          obtain ⟨⟨τ, next⟩, -, hτ⟩ := hstep
          cases next <;> cases hτ <;> exact .inl rfl
        | reinit => cases requested <;> cases hstep <;> exact .inl rfl
        | _ =>
          simp only [controlStep, closeStep, State.cancelCleanup] at hstep
          split at hstep <;> cases hstep
          all_goals exact .inl rfl
      | _ =>
        rw [hcontrol] at hstep
        simp only [controlStep] at hstep
        repeat' split at hstep
        all_goals cases hstep
        all_goals exact .inl rfl
  · left
    by_cases hlistener : ∃ f c, a = .listener f c
    · obtain ⟨f, c, rfl⟩ := hlistener
      cases listenerStep_move hstep <;> simp
    · rw [(step_beside hstep (fun f c heq => hlistener ⟨f, c, heq⟩)
        (fun c heq => hcontrol ⟨c, heq⟩)).1]

end Sockets

/-! ## Result -/

/-- What a device has before it is opened for the first time. -/
structure Unopened (σ : State) : Prop where
  cleanupScheduled : σ.cleanupScheduled = false
  udpSocket : σ.udpSocket = false
  listenSockets : ∀ f, σ.listenSocket f = .absent
  listeners : ∀ f, σ.listener f = .absent
  entries : σ.entries = []
  counters : σ.tracking.pending = 0 ∧ σ.tracking.tracked = 0
  worker : σ.worker = .idle ∧ σ.cleanupWork = false ∧ σ.kicks = []
  carriers : ∀ p ∈ σ.peers, p.carriers = [] ∧ p.promotion = .idle

/-- The invariants together. -/
structure Orderly (σ : State) : Prop where
  numbered : Numbered σ
  staged : Staged σ
  kicked : Kicked σ
  barred : Barred σ
  settled : σ.control.settled = true → Settled σ
  bare : Bare σ

theorem orderly_init : Orderly State.init where
  numbered := numbered_init
  staged := staged_init
  kicked := by intro peer hpeer; cases hpeer
  barred := barred_init
  settled := fun _ => ⟨rfl, rfl, rfl, by intro p hp; cases hp⟩
  bare := bare_init

theorem step_orderly {σ σ' : State} {a : Action} (h : Orderly σ) (hcond : FailsStopped σ a)
    (hstep : step σ a = some σ') : Orderly σ' where
  numbered := step_numbered h.numbered hstep
  staged := step_staged h.staged hstep
  kicked := step_kicked h.staged h.kicked hstep
  barred := step_barred h.barred hcond hstep
  settled := step_settled h.staged h.kicked h.barred h.settled hstep
  bare := step_bare h.bare hstep

/-- The two ways in which `wg_open` returns an error. -/
theorem controlStep_failed {σ σ' : State} {c : ControlChoice} {requested : Nat}
    (hstep : controlStep σ σ.control c = some σ') (hfailed : σ'.control = .failed requested) :
    (∃ ok port ipv6, c = .proceed ok port ipv6 ∧ σ.control = .opening .udp requested ∧
      σ.openFails ok ipv6 .udp = true ∧ σ'.incomingPort = σ.incomingPort ∧ σ'.peers = σ.peers) ∨
    (σ.control = .closing .reinit (some requested) ∧ σ'.incomingPort = requested ∧
      σ'.peers = σ.peers) := by
  cases hcontrol : σ.control with
  | opening stage r =>
    rw [hcontrol] at hstep
    cases c with
    | proceed ok port ipv6 =>
      cases stage <;> simp only [controlStep, openStep] at hstep <;> repeat' split at hstep
      all_goals cases hstep
      all_goals cases hfailed
      exact .inl ⟨ok, port, ipv6, rfl, rfl, by simp_all [State.openFails], rfl, rfl⟩
    | _ => cases hstep
  | closing stage r =>
    rw [hcontrol] at hstep
    cases c with
    | proceed ok port ipv6 =>
      cases stage with
      | releasing stage =>
        simp only [controlStep, closeStep, Option.map_eq_some_iff] at hstep
        obtain ⟨⟨τ, next⟩, -, hτ⟩ := hstep
        cases next <;> cases hτ <;> cases hfailed
      | reinit =>
        cases r <;> cases hstep <;> cases hfailed
        exact .inr ⟨rfl, rfl, rfl⟩
      | _ =>
        simp only [controlStep, closeStep, State.cancelCleanup] at hstep
        split at hstep <;> cases hstep
        all_goals cases hfailed
    | _ => cases hstep
  | undoing stage r =>
    rw [hcontrol] at hstep
    cases c with
    | proceed ok port ipv6 =>
      simp only [controlStep, Option.map_eq_some_iff] at hstep
      obtain ⟨⟨τ, next⟩, -, hτ⟩ := hstep
      cases next <;> cases hτ <;> cases hfailed
    | _ => cases hstep
  | _ =>
    rw [hcontrol] at hstep
    cases c <;> simp only [controlStep] at hstep <;> repeat' split at hstep
    all_goals cases hstep
    all_goals cases hfailed

theorem controlStep_quiet {σ σ' : State} {c : ControlChoice} {requested : Nat}
    (hbarred : Barred σ) (hcond : FailsStopped σ (.control c))
    (hstep : controlStep σ σ.control c = some σ') (hfailed : σ'.control = .failed requested) :
    ∀ p ∈ σ'.peers, p.Quiet := by
  intro p hp
  rcases controlStep_failed hstep hfailed with
    ⟨ok, port, ipv6, rfl, hcontrol, hfails, -, hpeers⟩ | ⟨hcontrol, -, hpeers⟩
  · rw [hpeers] at hp
    obtain ⟨i, hi⟩ := List.mem_iff_getElem?.mp hp
    simp only [FailsStopped, failsStopped, hcontrol, hfails, Bool.not_true, Bool.false_or,
      List.all_eq_true] at hcond
    exact hbarred.quiet i p hi (hcond p hp) (by rw [hcontrol]; intro h; cases h)
  · rw [hpeers] at hp
    obtain ⟨i, hi⟩ := List.mem_iff_getElem?.mp hp
    have hstop := hbarred.barred i p hi (by rw [hcontrol]; rfl)
    exact hbarred.quiet i p hi hstop (by rw [hcontrol]; intro h; cases h)

theorem Orderly.unopened {σ : State} {requested : Nat} (h : Orderly σ)
    (hfailed : σ.control = .failed requested) (hquiet : ∀ p ∈ σ.peers, p.Quiet) : Unopened σ := by
  have hsettled : σ.control.settled = true := by rw [hfailed]; rfl
  have hnow := h.settled hsettled
  have hlisten := h.bare.listen (by rw [hfailed]; rfl)
  have hnil : σ.tracking.list = [] := h.staged.drained (Control.drained_of_settled hsettled)
  constructor
  case cleanupScheduled => rw [h.staged.flag, hfailed]; rfl
  case udpSocket => exact h.bare.udp (by rw [hfailed]; rfl)
  case listenSockets =>
    rintro (_ | _)
    · exact hlisten.1
    · exact hlisten.2
  case listeners => exact fun f => h.staged.joined f (by rw [hfailed]; rfl)
  case entries => exact hnow.entries h.staged hsettled
  case counters =>
    rw [h.numbered.accounted.pending, h.numbered.accounted.tracked, hnil]
    exact ⟨rfl, rfl⟩
  case worker => exact ⟨hnow.worker, hnow.work, hnow.kicks⟩
  case carriers => exact fun p hp => ⟨(hquiet p hp).carriers, (hquiet p hp).promotion⟩

/-- The port that an open asks for stays the same until it returns. -/
theorem run_requested {bs : List Action} {σ₁ τ : State} {port : Nat}
    (hstart : σ₁.control.requested = some port) (hfirst : Action.control .openDevice ∉ bs)
    (hrun : Transition.run step σ₁ bs = some τ) :
    τ.control.requested = some port ∨ τ.control.requested = none := by
  have hcond : Transition.Meets step (fun _ a => a ≠ Action.control .openDevice) σ₁ bs :=
    Transition.meets_of_forall_mem (fun _ a ha => by rintro rfl; exact hfirst ha) σ₁
  apply @Transition.run_invariant_of_meets _ _ _
    (fun σ => σ.control.requested = some port ∨ σ.control.requested = none) _ _ _ _ _ (.inl hstart)
    hcond hrun
  intro σ a σ' h ha hstep
  rcases step_requested ha hstep with hsame | hnone
  · rw [hsame]
    exact h
  · exact .inr hnone

/-- In a run in which the peers are behind their barrier whenever a call of `wg_open` fails: when
`wg_open` returns an error, the port is the one it was called with, and otherwise the device has
what it had before it was first opened. -/
theorem failed_open_transactional {as bs : List Action} {σ₀ σ₁ τ σ : State} {c : ControlChoice}
    {requested : Nat} (hreach : Reaches as σ₀) (hopen : step σ₀ (.control .openDevice) = some σ₁)
    (hrun : Transition.run step σ₁ bs = some τ) (hfirst : Action.control .openDevice ∉ bs)
    (hlast : step τ (.control c) = some σ) (hfailed : σ.control = .failed requested)
    (hcond : Transition.Meets step FailsStopped State.init
      (as ++ .control .openDevice :: (bs ++ [.control c]))) :
    σ.incomingPort = σ₀.incomingPort ∧ Unopened σ := by
  obtain ⟨hbefore, hafter⟩ := Transition.meets_append.mp hcond
  obtain ⟨hfirstCond, hrest⟩ := hafter σ₀ hreach
  obtain ⟨hduring, hend⟩ := Transition.meets_append.mp (hrest σ₁ hopen)
  have horderly₀ := Transition.run_invariant_of_meets (fun _ _ _ => step_orderly) orderly_init
    hbefore hreach
  have horderly₁ := step_orderly horderly₀ hfirstCond hopen
  have horderly := Transition.run_invariant_of_meets (fun _ _ _ => step_orderly) horderly₁
    hduring hrun
  have hcondLast : FailsStopped τ (.control c) := (hend τ hrun).1
  have hquiet := controlStep_quiet horderly.barred hcondLast hlast hfailed
  refine ⟨?_, (step_orderly horderly hcondLast hlast).unopened hfailed hquiet⟩
  have hstart : σ₁.control.requested = some σ₀.incomingPort := by
    have hcontrol : controlStep σ₀ σ₀.control .openDevice = some σ₁ := hopen
    cases hold : σ₀.control <;> rw [hold] at hcontrol <;> cases hcontrol <;> rfl
  have hrequested := run_requested hstart hfirst hrun
  rcases controlStep_failed hlast hfailed with
    ⟨ok, port, ipv6, rfl, hcontrol, -, hport, -⟩ | ⟨hcontrol, hport, -⟩
  · rw [hcontrol] at hrequested
    rw [hport, horderly.bare.port requested hcontrol]
    simpa [Control.requested] using hrequested
  · rw [hcontrol] at hrequested
    rw [hport]
    simpa [Control.requested] using hrequested

def proceeds (n : Nat) (ipv6 : Bool) : List Action :=
  List.replicate n (.control (.proceed true 51820 ipv6))

/-- A device with one peer is opened and stopped again. -/
def openStopRun : List Action :=
  List.flatten [[.peerCreate, .control .openDevice], proceeds 9 false, [.control .stopDevice],
    proceeds 4 false, [.listener .v4 .leave], proceeds 7 false]

/-- A connection is accepted and authenticated before the second listener thread fails to start;
all but the last step of the rollback. -/
def failingRun : List Action :=
  List.flatten [proceeds 6 true, acceptRun .v4 (.inet 1000 7), [.mark 1, .request 0 1],
    [.control (.proceed false 0 true), .control (.proceed true 0 true), .listener .v4 .leave],
    proceeds 13 true]

theorem failed_open_after_stop : ∃ σ₀ σ₁ τ σ, Reaches openStopRun σ₀ ∧
    step σ₀ (.control .openDevice) = some σ₁ ∧ Transition.run step σ₁ failingRun = some τ ∧
    step τ (.control (.proceed true 0 true)) = some σ ∧ σ.incomingPort = σ₀.incomingPort ∧
    Unopened σ := by
  have hrun : (Transition.run step State.init openStopRun).any (fun σ₀ =>
      (step σ₀ (.control .openDevice)).any fun σ₁ =>
        (Transition.run step σ₁ failingRun).any fun τ =>
          (step τ (.control (.proceed true 0 true))).any fun σ =>
            σ.control == .failed 51820) = true := by
    decide +kernel
  obtain ⟨σ₀, hreach, hrun⟩ := Transition.exists_run_of_any hrun
  obtain ⟨σ₁, hopen, hrun⟩ := (Option.any_eq_true _ _).mp hrun
  obtain ⟨τ, hduring, hrun⟩ := (Option.any_eq_true _ _).mp hrun
  obtain ⟨σ, hlast, hfailed⟩ := (Option.any_eq_true _ _).mp hrun
  exact ⟨σ₀, σ₁, τ, σ, hreach, hopen, hduring, hlast,
    failed_open_transactional hreach hopen hduring (by decide +kernel) hlast
      (beq_iff_eq.mp hfailed) (by decide +kernel)⟩

/-- The first open of a device with one peer: a connection is accepted, authenticated and promoted
to the peer, and then the second listener thread cannot be started. -/
def failedOpenRun : List Action :=
  List.flatten [[.peerCreate, .control .openDevice], proceeds 6 true,
    acceptRun .v4 (.inet 1000 7), [.mark 1, .request 0 1], List.replicate 5 (.promotion 0 true),
    [.control (.proceed false 0 true), .control (.proceed true 0 true), .listener .v4 .leave],
    proceeds 12 true]

/-- `wg_open` has failed, and the peer still owns the accepted connection. -/
theorem failed_open_keeps_carrier : ∃ σ, Reaches failedOpenRun σ ∧ σ.control = .failed 0 ∧
    ∃ p ∈ σ.peers, p.carriers ≠ [] := by
  obtain ⟨σ, hrun, hcheck⟩ := Transition.exists_run_of_any (by decide +kernel :
    (Transition.run step State.init failedOpenRun).any (fun σ =>
      σ.control == .failed 0 && σ.peers.any fun p => p.carriers != []) = true)
  simp only [Bool.and_eq_true, beq_iff_eq, List.any_eq_true, bne_iff_ne] at hcheck
  exact ⟨σ, hrun, hcheck⟩

end Listener

end WgTcp
