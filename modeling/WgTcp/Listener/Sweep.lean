import WgTcp.Listener.Admission

/-!
# The cleanup sweep

`wg_tcp_cleanup_worker` claims one expired entry after the other, each with a
fresh reading of the clock, and queues itself again while entries remain. Alone
and at a fixed time a run takes away exactly the expired entries
(`wgTcpCleanupWorker_eq`). Among the other threads, each claim is of an entry
that is expired then, the last claim finds none, and as long as the device is up
a list that is not empty has a sweep to come (`Watched`).
-/

namespace WgTcp

namespace Listener

open FirstMatch
open Netlink (SockAddr)

/-! ## A run without interruption -/

/-- The loop of the worker; every round but the last takes an entry off the list. -/
def sweepLoop (now : Nat) : Nat → Tracking → List ListEntry × Tracking
  | 0, t => ([], t)
  | fuel + 1, t =>
      match wgClaimTcpConnection now none true t with
      | (none, t) => ([], t)
      | (some e, t) =>
          let (destroyed, t) := sweepLoop now fuel t
          (e :: destroyed, t)

structure CleanupRun where
  destroyed : List ListEntry
  tracking : Tracking
  /-- The worker queues itself again. -/
  rearmed : Bool

def wgTcpCleanupWorker (now : Nat) (scheduled : Bool) (t : Tracking) : CleanupRun :=
  let (destroyed, t) := sweepLoop now (t.list.length + 1) t
  ⟨destroyed, t, !t.list.isEmpty && scheduled⟩

/-- Initialised, and without a live provisional peer, or not authenticated and idle for five
seconds or there for thirty. -/
def ListEntry.expired (now : Nat) (e : ListEntry) : Bool :=
  !e.initializing && (!e.live || (!e.authenticated &&
    (decide (wgTcpAuthIdleTimeoutMs ≤ ktimeMsDelta now e.timestamp) ||
      decide (wgTcpAuthMaxLifetimeMs ≤ ktimeMsDelta now e.createdAt))))

theorem claimable_cleanup (now : Nat) (e : ListEntry) :
    e.claimable now none true = e.expired now := by
  have hnot (a b : Int) : decide (b ≤ a) = !decide (a < b) := by
    rw [← decide_not]
    exact decide_eq_decide.mpr Int.not_lt.symm
  unfold ListEntry.claimable ListEntry.expired ListEntry.kept
  rw [hnot, hnot]
  cases e.initializing <;> cases e.live <;> cases e.authenticated <;>
    cases decide (ktimeMsDelta now e.timestamp < wgTcpAuthIdleTimeoutMs) <;>
    cases decide (ktimeMsDelta now e.createdAt < wgTcpAuthMaxLifetimeMs) <;> rfl

/-- An entry behind its claim: it no longer counts. -/
def ListEntry.uncounted (e : ListEntry) : ListEntry := { e with admissionCounted := false }

/-- What a claim of the sweep does to the list. -/
theorem claim_cleanup (now : Nat) (t : Tracking) :
    (∃ before e behind, t.list = before ++ e :: behind ∧ e.expired now = true ∧
      (∀ b ∈ before, b.expired now = false) ∧
      (wgClaimTcpConnection now none true t).1 = some e.uncounted ∧
      (wgClaimTcpConnection now none true t).2.list = before ++ behind) ∨
    ((∀ e ∈ t.list, e.expired now = false) ∧ wgClaimTcpConnection now none true t = (none, t)) := by
  unfold wgClaimTcpConnection
  split
  · rename_i hnone
    right
    refine ⟨?_, rfl⟩
    intro e he
    rw [← claimable_cleanup]
    exact firstMatch_eq_none.mp hnone e he
  · rename_i before e behind hfound
    obtain ⟨hlist, he, hbefore⟩ := firstMatch_eq_some hfound
    left
    refine ⟨before, e, behind, hlist, ?_, ?_, ?_, rfl⟩
    · rw [← claimable_cleanup]
      exact he
    · intro b hb
      rw [← claimable_cleanup]
      exact hbefore b hb
    · simp only [(release_fields e t).2]
      rfl

theorem sweepLoop_eq (now : Nat) (fuel : Nat) (t : Tracking) (hfuel : t.list.length < fuel) :
    (sweepLoop now fuel t).1 = (t.list.filter (·.expired now)).map ListEntry.uncounted ∧
      (sweepLoop now fuel t).2.list = t.list.filter fun e => !e.expired now := by
  induction fuel generalizing t with
  | zero => cases hfuel
  | succ fuel ih =>
    rw [sweepLoop]
    rcases claim_cleanup now t with ⟨before, e, behind, hlist, he, hbefore, hclaimed, hrest⟩ |
      ⟨hall, hclaim⟩
    · cases hresult : wgClaimTcpConnection now none true t with
      | mk claimed t' =>
        rw [hresult] at hclaimed hrest
        simp only at hclaimed hrest
        subst hclaimed
        have hlt : t'.list.length < fuel := by
          rw [hrest]
          rw [hlist] at hfuel
          simp only [List.length_append, List.length_cons] at hfuel ⊢
          omega
        obtain ⟨hdestroyed, hkept⟩ := ih t' hlt
        have hexpired : before.filter (·.expired now) = [] := by
          rw [List.filter_eq_nil_iff]
          intro b hb
          simp [hbefore b hb]
        simp only [hdestroyed, hkept, hrest, hlist, List.filter_append, List.filter_cons, he,
          hexpired]
        simp
    · rw [hclaim]
      simp only
      refine ⟨?_, ?_⟩
      · rw [List.filter_eq_nil_iff.mpr (fun e he => by simp [hall e he])]
        rfl
      · rw [List.filter_eq_self.mpr]
        intro e he
        simp [hall e he]

/-- Alone and at a fixed time, a run destroys exactly the expired entries, and the others stay in
their order. -/
theorem wgTcpCleanupWorker_eq (now : Nat) (scheduled : Bool) (t : Tracking) :
    (wgTcpCleanupWorker now scheduled t).destroyed =
        (t.list.filter (·.expired now)).map ListEntry.uncounted ∧
      (wgTcpCleanupWorker now scheduled t).tracking.list = t.list.filter fun e => !e.expired now :=
  sweepLoop_eq now _ t (Nat.lt_succ_self _)

/-! ## The stages of open and stop -/

/-- The thread of the family is still to be started. -/
def OpenStage.before : OpenStage → Family → Bool
  | .thread6, .v4 | .peers _, _ => false
  | _, _ => true

/-- The thread of the family has been joined. -/
def ReleaseStage.joined : ReleaseStage → Family → Bool
  | .join6, .v4 | .release, _ => true
  | _, _ => false

namespace Control

/-- The stages in which `tcp_cleanup_scheduled` is set. -/
def raised : Control → Bool
  | .opening .. | .up | .undoing .. | .failing _ => true
  | _ => false

/-- The stages in which the thread of the family does not exist. -/
def joined : Control → Family → Bool
  | .down, _ | .failed _, _ | .failing _, _ => true
  | .opening stage _, f => stage.before f
  | .undoing stage _, f | .closing (.releasing stage) _, f => stage.joined f
  | .closing _ _, _ => true
  | _, _ => false

/-- The stages in which the list is empty. -/
def drained : Control → Bool
  | .down | .failed _ | .closing .cancelAgain _ | .closing .reinit _ => true
  | .opening stage _ => stage.before .v4
  | _ => false

theorem joined_of_drained {c : Control} (h : c.drained = true) (f : Family) :
    c.joined f = true := by
  cases c with
  | opening stage _ => cases stage <;> cases f <;> first | rfl | cases h
  | closing stage _ => cases stage <;> first | rfl | cases h
  | down => rfl
  | failed _ => rfl
  | _ => cases h

end Control

/-- What the stage of the RTNL thread says about the device. -/
structure Staged (σ : State) : Prop where
  flag : σ.cleanupScheduled = σ.control.raised
  joined : ∀ f, σ.control.joined f = true → σ.listener f = .absent
  drained : σ.control.drained = true → σ.tracking.list = []

theorem staged_init : Staged State.init where
  flag := rfl
  joined := by rintro (_ | _) _ <;> rfl
  drained := fun _ => rfl

section Stages

variable {σ σ' : State}

/-- A step of another thread. -/
theorem Staged.beside (h : Staged σ) (hcontrol : σ'.control = σ.control)
    (hflag : σ'.cleanupScheduled = σ.cleanupScheduled)
    (habsent : ∀ f, σ.listener f = .absent → σ'.listener f = .absent)
    (hkeeps : σ.tracking.list = [] → σ'.tracking.list = []) : Staged σ' where
  flag := by rw [hflag, hcontrol, h.flag]
  joined f hf := habsent f (h.joined f (hcontrol ▸ hf))
  drained hd := hkeeps (h.drained (hcontrol ▸ hd))

theorem Staged.listener {f : Family} (h : Staged σ) (hthere : σ.listener f ≠ .absent)
    {τ : State} {pc : ListenerPc} (hcontrol : τ.control = σ.control)
    (hflag : τ.cleanupScheduled = σ.cleanupScheduled) (h4 : τ.listener4 = σ.listener4)
    (h6 : τ.listener6 = σ.listener6) : Staged (τ.setListener f pc) := by
  have hjoined : σ.control.joined f = false := by
    cases hj : σ.control.joined f with
    | false => rfl
    | true => exact absurd (h.joined f hj) hthere
  refine ⟨?_, ?_, ?_⟩
  · simp only [State.setListener_cleanupScheduled, State.setListener_control, hflag, hcontrol,
      h.flag]
  · intro g hg
    rw [State.setListener_control, hcontrol] at hg
    rw [State.listener_setListener, if_neg]
    · have := h.joined g hg
      cases g
      · exact h4.trans this
      · exact h6.trans this
    · rintro rfl
      rw [hjoined] at hg
      cases hg
  · intro hd
    rw [State.setListener_control, hcontrol] at hd
    rw [Control.joined_of_drained hd f] at hjoined
    cases hjoined

theorem ListenerMove.there {f : Family} (h : ListenerMove σ f σ') : σ.listener f ≠ .absent := by
  cases h with
  | plain _ habsent _ _ _ _ => exact habsent
  | destroy hpc _ _ _ _ =>
    intro habsent
    rw [habsent] at hpc
    cases hpc
  | _ => simp [*]

theorem ListenerMove.staged {f : Family} (hmove : ListenerMove σ f σ') (h : Staged σ) :
    Staged σ' := by
  have hthere := hmove.there
  cases hmove <;> exact h.listener hthere rfl rfl rfl rfl

theorem releaseStep_staged {stage : ReleaseStage} {next : Option ReleaseStage}
    (h : releaseStep σ stage = some (σ', next)) (hgone : ∀ f, stage.joined f = true →
      σ.listener f = .absent) :
    σ'.cleanupScheduled = σ.cleanupScheduled ∧ σ'.control = σ.control ∧
      ∀ f, (next.elim true fun next => next.joined f) = true → σ'.listener f = .absent := by
  cases stage with
  | shutdown =>
    cases h
    refine ⟨rfl, rfl, ?_⟩
    rintro (_ | _) hj <;> cases hj
  | join4 =>
    simp only [releaseStep] at h
    split at h <;> cases h
    refine ⟨rfl, rfl, ?_⟩
    rintro (_ | _) hj
    · rfl
    · cases hj
  | join6 =>
    simp only [releaseStep] at h
    split at h <;> cases h
    refine ⟨rfl, rfl, ?_⟩
    rintro (_ | _) _
    · exact hgone .v4 rfl
    · rfl
  | release =>
    cases h
    refine ⟨rfl, rfl, ?_⟩
    rintro (_ | _) _
    · exact hgone .v4 rfl
    · exact hgone .v6 rfl

/-- As long as no thread has been started, nothing is on the list. -/
theorem Staged.fresh (hflag : σ.cleanupScheduled = σ.control.raised)
    (h4 : σ.listener4 = .absent) (h6 : σ.listener6 = .absent) (hnil : σ.tracking.list = []) :
    Staged σ where
  flag := hflag
  joined := by
    rintro (_ | _) _
    · exact h4
    · exact h6
  drained := fun _ => hnil

theorem openStep_staged {stage : OpenStage} {requested port : Nat} {ok ipv6 : Bool} (h : Staged σ)
    (hcontrol : σ.control = .opening stage requested)
    (hstep : openStep σ requested ok port ipv6 stage = some σ') : Staged σ' := by
  have hflag : σ.cleanupScheduled = true := by rw [h.flag, hcontrol]; rfl
  have hjoined (f : Family) (hf : stage.before f = true) : σ.listener f = .absent := by
    apply h.joined
    rw [hcontrol]
    exact hf
  have hdrained (hf : stage.before .v4 = true) : σ.tracking.list = [] := by
    apply h.drained
    rw [hcontrol]
    exact hf
  cases stage with
  | peers i =>
    simp only [openStep] at hstep
    split at hstep <;> cases hstep
    · refine ⟨hflag, ?_, fun hd => by cases hd⟩
      rintro (_ | _) hj <;> cases hj
    · refine ⟨hflag, ?_, fun hd => by cases hd⟩
      rintro (_ | _) hj <;> cases hj
  | thread6 =>
    have h6 : σ.listener6 = .absent := hjoined .v6 rfl
    simp only [openStep] at hstep
    repeat' split at hstep
    all_goals cases hstep
    all_goals
      refine ⟨hflag, ?_, fun hd => by cases hd⟩
      rintro (_ | _) hj <;> cases hj
  | thread4 =>
    have h6 : σ.listener6 = .absent := hjoined .v6 rfl
    simp only [openStep] at hstep
    split at hstep <;> cases hstep
    · refine ⟨hflag, ?_, fun hd => by cases hd⟩
      rintro (_ | _) hj
      · cases hj
      · exact h6
    · refine ⟨hflag, ?_, fun hd => by cases hd⟩
      rintro (_ | _) hj <;> cases hj
  | udp =>
    simp only [openStep] at hstep
    repeat' split at hstep
    all_goals cases hstep
    · exact .fresh hflag (hjoined .v4 rfl) (hjoined .v6 rfl) (hdrained rfl)
    · exact .fresh hflag (hjoined .v4 rfl) (hjoined .v6 rfl) (hdrained rfl)
    · exact .fresh rfl (hjoined .v4 rfl) (hjoined .v6 rfl) (hdrained rfl)
  | _ =>
    simp only [openStep] at hstep
    repeat' split at hstep
    all_goals cases hstep
    all_goals exact .fresh hflag (hjoined .v4 rfl) (hjoined .v6 rfl) (hdrained rfl)

/-- The drain passes over no entry. -/
theorem claim_drained {now : Nat} {t t' : Tracking}
    (h : wgClaimTcpConnection now none false t = (none, t')) : t'.list = [] := by
  unfold wgClaimTcpConnection at h
  split at h
  · rename_i hnone
    cases h
    rw [List.eq_nil_iff_forall_not_mem]
    intro e he
    have := firstMatch_eq_none.mp hnone e he
    simp [ListEntry.claimable] at this
  · cases h

theorem closeStep_staged {stage : CloseStage} {requested : Option Nat} (h : Staged σ)
    (hcontrol : σ.control = .closing stage requested)
    (hstep : closeStep σ requested stage = some σ') : Staged σ' := by
  have hflag : σ.cleanupScheduled = false := by rw [h.flag, hcontrol]; rfl
  have hjoined := h.joined
  have hdrained := h.drained
  rw [hcontrol] at hjoined hdrained
  cases stage with
  | releasing stage =>
    simp only [closeStep, Option.map_eq_some_iff] at hstep
    obtain ⟨⟨τ, next⟩, hrelease, hτ⟩ := hstep
    obtain ⟨hscheduled, -, hgone⟩ := releaseStep_staged hrelease hjoined
    cases next <;> cases hτ <;>
      exact ⟨hscheduled.trans hflag, hgone, fun hd => by cases hd⟩
  | cancel =>
    simp only [closeStep, State.cancelCleanup] at hstep
    split at hstep <;> cases hstep
    exact ⟨hflag, hjoined, fun hd => by cases hd⟩
  | drain =>
    simp only [closeStep] at hstep
    split at hstep <;> rename_i t hclaim <;> cases hstep
    · exact ⟨hflag, hjoined, fun _ => claim_drained hclaim⟩
    · exact ⟨hflag, hjoined, fun hd => by cases hd⟩
  | destroy e =>
    simp only [closeStep] at hstep
    split at hstep <;> cases hstep
    exact ⟨hflag, hjoined, fun hd => by cases hd⟩
  | cancelAgain =>
    simp only [closeStep, State.cancelCleanup] at hstep
    split at hstep <;> cases hstep
    exact ⟨hflag, hjoined, hdrained⟩
  | reinit =>
    cases requested <;> cases hstep <;> exact ⟨hflag, hjoined, hdrained⟩

theorem controlStep_staged {c : ControlChoice} (h : Staged σ)
    (hstep : controlStep σ σ.control c = some σ') : Staged σ' := by
  cases hcontrol : σ.control with
  | opening stage requested =>
    rw [hcontrol] at hstep
    cases c with
    | proceed ok port ipv6 => exact openStep_staged h hcontrol hstep
    | _ => cases hstep
  | closing stage requested =>
    rw [hcontrol] at hstep
    cases c with
    | proceed ok port ipv6 => exact closeStep_staged h hcontrol hstep
    | _ => cases hstep
  | undoing stage requested =>
    have hflag : σ.cleanupScheduled = true := by rw [h.flag, hcontrol]; rfl
    have hjoined := h.joined
    rw [hcontrol] at hstep hjoined
    cases c with
    | proceed ok port ipv6 =>
      simp only [controlStep, Option.map_eq_some_iff] at hstep
      obtain ⟨⟨τ, next⟩, hrelease, hτ⟩ := hstep
      obtain ⟨hscheduled, -, hgone⟩ := releaseStep_staged hrelease hjoined
      cases next <;> cases hτ <;>
        exact ⟨hscheduled.trans hflag, hgone, fun hd => by cases hd⟩
    | _ => cases hstep
  | stopping i =>
    have hflag : σ.cleanupScheduled = false := by rw [h.flag, hcontrol]; rfl
    rw [hcontrol] at hstep
    cases c with
    | proceed ok port ipv6 =>
      simp only [controlStep] at hstep
      split at hstep <;> cases hstep <;>
        exact ⟨hflag, fun f hj => (by cases f <;> cases hj), fun hd => by cases hd⟩
    | _ => cases hstep
  | quieting i =>
    have hflag : σ.cleanupScheduled = false := by rw [h.flag, hcontrol]; rfl
    rw [hcontrol] at hstep
    cases c with
    | proceed ok port ipv6 =>
      simp only [controlStep] at hstep
      repeat' split at hstep
      all_goals cases hstep
      exact ⟨hflag, fun f hj => (by cases f <;> cases hj), fun hd => by cases hd⟩
    | _ => cases hstep
  | failing requested =>
    rw [hcontrol] at hstep
    cases c with
    | proceed ok port ipv6 =>
      cases hstep
      exact ⟨rfl, fun f hj => (by cases f <;> cases hj), fun hd => by cases hd⟩
    | _ => cases hstep
  | up =>
    rw [hcontrol] at hstep
    cases c <;> cases hstep
    exact ⟨rfl, fun f hj => (by cases f <;> cases hj), fun hd => by cases hd⟩
  | _ =>
    have h4 : σ.listener4 = .absent := h.joined .v4 (by rw [hcontrol]; rfl)
    have h6 : σ.listener6 = .absent := h.joined .v6 (by rw [hcontrol]; rfl)
    have hnil : σ.tracking.list = [] := h.drained (by rw [hcontrol]; rfl)
    rw [hcontrol] at hstep
    cases c <;> cases hstep
    exact .fresh rfl h4 h6 hnil

theorem absent_of_eq (h4 : σ'.listener4 = σ.listener4) (h6 : σ'.listener6 = σ.listener6)
    (f : Family)
    (h : σ.listener f = .absent) : σ'.listener f = .absent := by
  cases f
  · exact h4.trans h
  · exact h6.trans h

theorem kill_absent (σ : State) (peer : Nat) (f : Family) (h : σ.listener f = .absent) :
    (σ.kill peer).listener f = .absent := by
  cases f
  · have h4 : σ.listener4 = .absent := h
    simp only [State.listener, State.kill, h4]
  · have h6 : σ.listener6 = .absent := h
    simp only [State.listener, State.kill, h6]

theorem step_staged {a : Action} (h : Staged σ) (hstep : step σ a = some σ') : Staged σ' := by
  by_cases hlistener : ∃ f c, a = .listener f c
  · obtain ⟨f, c, rfl⟩ := hlistener
    exact (listenerStep_move hstep).staged h
  by_cases hcontrol : ∃ c, a = .control c
  · obtain ⟨c, rfl⟩ := hcontrol
    exact controlStep_staged h hstep
  obtain ⟨hsame, hflag, hkeeps, hpcs⟩ := step_beside hstep
    (fun f c heq => hlistener ⟨f, c, heq⟩) (fun c heq => hcontrol ⟨c, heq⟩)
  apply h.beside hsame hflag _ hkeeps.nil
  rcases hpcs with ⟨h4, h6⟩ | ⟨peer, rfl⟩
  · exact absent_of_eq h4 h6
  · exact kill_absent σ peer

end Stages

/-! ## A sweep to come -/

/-- The worker will look at the list again, or queue itself. -/
def WorkerPc.sweeping : WorkerPc → Bool
  | .idle => false
  | .checked pending => pending
  | _ => true

/-- A sweep is pending or running, or is about to be queued by the thread that added an entry. -/
def SweepToCome (σ : State) : Prop :=
  σ.cleanupWork = true ∨ σ.worker.sweeping = true ∨ ∃ f s, σ.listener f = .queueing s

def Watched (σ : State) : Prop :=
  σ.cleanupScheduled = true → σ.tracking.list ≠ [] → SweepToCome σ

section Watch

variable {σ σ' : State}

theorem Watched.mono (h : Watched σ)
    (hflag : σ'.cleanupScheduled = true → σ.cleanupScheduled = true)
    (hlist : σ.tracking.list = [] → σ'.tracking.list = [])
    (hcome : SweepToCome σ → SweepToCome σ') : Watched σ' :=
  fun hscheduled hnonempty => hcome (h (hflag hscheduled) fun hnil => hnonempty (hlist hnil))

/-- Work, worker and inserting threads stay as they are. -/
theorem SweepToCome.of_eq (hwork : σ'.cleanupWork = σ.cleanupWork)
    (hworker : σ'.worker = σ.worker)
    (hpcs : ∀ f s, σ.listener f = .queueing s → σ'.listener f = .queueing s)
    (h : SweepToCome σ) : SweepToCome σ' := by
  rcases h with h | h | ⟨f, s, h⟩
  · exact .inl (hwork.trans h)
  · exact .inr (.inl (hworker ▸ h))
  · exact .inr (.inr ⟨f, s, hpcs f s h⟩)

theorem queueing_setListener {τ : State} {f : Family} {pc : ListenerPc}
    (h4 : τ.listener4 = σ.listener4) (h6 : τ.listener6 = σ.listener6)
    (hpc : ∀ s, σ.listener f ≠ .queueing s) (g : Family) (s : SockId)
    (h : σ.listener g = .queueing s) : (τ.setListener f pc).listener g = .queueing s := by
  rw [State.listener_setListener, if_neg]
  · cases g
    · exact h4.trans h
    · exact h6.trans h
  · rintro rfl
    exact hpc s h

theorem ListenerMove.watched {f : Family} (hmove : ListenerMove σ f σ') (h : Watched σ) :
    Watched σ' := by
  have hsame {τ : State} {pc : ListenerPc} (hscheduled : τ.cleanupScheduled = σ.cleanupScheduled)
      (hwork : τ.cleanupWork = σ.cleanupWork) (hworker : τ.worker = σ.worker)
      (h4 : τ.listener4 = σ.listener4) (h6 : τ.listener6 = σ.listener6)
      (hkeeps : σ.tracking.Keeps τ.tracking) (hpc : ∀ s, σ.listener f ≠ .queueing s) :
      Watched (τ.setListener f pc) := by
    apply h.mono
    · rw [State.setListener_cleanupScheduled, hscheduled]
      exact id
    · rw [State.setListener_tracking]
      exact hkeeps.nil
    · apply SweepToCome.of_eq
      · rw [State.setListener_cleanupWork, hwork]
      · rw [State.setListener_worker, hworker]
      · exact queueing_setListener h4 h6 hpc
  have hqueued {τ : State} (hwork : τ.cleanupWork = true) : Watched τ := fun _ _ => .inl hwork
  cases hmove with
  | plain n _ hqueueing _ _ _ => exact hsame rfl rfl rfl rfl rfl (.refl _) hqueueing
  | claim hpc _ _ _ => exact hsame rfl rfl rfl rfl rfl (claim_keeps ..) (by simp [hpc])
  | destroy hpc _ _ _ _ =>
    apply hsame rfl rfl rfl rfl rfl (.refl _)
    intro s hqueueing
    rw [hqueueing] at hpc
    cases hpc
  | @prepare s addr hpc =>
    apply h.mono
    · rw [State.setListener_cleanupScheduled]
      exact id
    · rw [State.setListener_tracking]
      exact id
    · apply SweepToCome.of_eq
      · rw [State.setListener_cleanupWork]
      · rw [State.setListener_worker]
      · exact queueing_setListener rfl rfl (by simp [hpc])
  | refuse hpc => exact hsame rfl rfl rfl rfl rfl (.refl _) (by simp [hpc])
  | @add e t hpc hadd =>
    intro _ _
    refine .inr (.inr ⟨f, e.tcpSocket.getD 0, ?_⟩)
    rw [State.listener_setListener, if_pos rfl]
  | queue hpc => exact hqueued (by rw [State.setListener_cleanupWork])
  | finish established hpc => exact hsame rfl rfl rfl rfl rfl (finishInit_keeps ..) (by simp [hpc])
  | kick hpc => exact hqueued (by rw [State.setListener_cleanupWork])

theorem workerStep_watched (h : Watched σ) (hstep : workerStep σ = some σ') : Watched σ' := by
  have hkeeps := workerStep_keeps hstep
  unfold workerStep at hstep
  split at hstep
  case h_1 =>
    split at hstep <;> cases hstep
    exact fun _ _ => .inr (.inl rfl)
  case h_2 =>
    cases hstep
    exact fun _ _ => .inr (.inl rfl)
  case h_3 =>
    split at hstep <;> cases hstep <;> exact fun _ _ => .inr (.inl rfl)
  case h_4 =>
    split at hstep <;> cases hstep
    exact fun _ _ => .inr (.inl rfl)
  case h_5 =>
    cases hstep
    intro _ hnonempty
    refine .inr (.inl ?_)
    show (!σ.tracking.list.isEmpty) = true
    simpa using hnonempty
  case h_6 pending hworker =>
    split at hstep <;> rename_i hagain <;> cases hstep
    · exact fun _ _ => .inr (.inl rfl)
    · -- The worker leaves: it had seen an empty list, so that something else has been queued.
      intro hscheduled hnonempty
      rcases h hscheduled hnonempty with hwork | hsweeping | ⟨f, s, hpc⟩
      · exact .inl hwork
      · rw [hworker] at hsweeping
        have hpending : pending = true := hsweeping
        simp only [hpending, Bool.true_and] at hagain
        exact absurd hscheduled hagain
      · exact .inr (.inr ⟨f, s, hpc⟩)
  case h_7 =>
    cases hstep
    exact fun _ _ => .inl rfl

theorem releaseStep_watched {stage : ReleaseStage} {next : Option ReleaseStage}
    (h : releaseStep σ stage = some (σ', next)) :
    σ'.cleanupWork = σ.cleanupWork ∧ σ'.worker = σ.worker ∧
      ∀ f s, σ.listener f = .queueing s → σ'.listener f = .queueing s := by
  have hjoin {pc : ListenerPc} (hpc : pc = .absent ∨ pc = .exited) (s : SockId)
      (hqueueing : pc = .queueing s) : False := by
    rcases hpc with rfl | rfl <;> cases hqueueing
  cases stage with
  | shutdown =>
    cases h
    exact ⟨rfl, rfl, by rintro (_ | _) s hpc <;> exact hpc⟩
  | join4 =>
    simp only [releaseStep] at h
    split at h <;> rename_i hgone <;> cases h
    refine ⟨rfl, rfl, ?_⟩
    rintro (_ | _) s hpc
    · exact (hjoin hgone s hpc).elim
    · exact hpc
  | join6 =>
    simp only [releaseStep] at h
    split at h <;> rename_i hgone <;> cases h
    refine ⟨rfl, rfl, ?_⟩
    rintro (_ | _) s hpc
    · exact hpc
    · exact (hjoin hgone s hpc).elim
  | release =>
    cases h
    exact ⟨rfl, rfl, by rintro (_ | _) s hpc <;> exact hpc⟩

theorem openStep_watched {stage : OpenStage} {requested port : Nat} {ok ipv6 : Bool}
    (hstaged : Staged σ) (hcontrol : σ.control = .opening stage requested) (h : Watched σ)
    (hstep : openStep σ requested ok port ipv6 stage = some σ') : Watched σ' := by
  have hflag : σ.cleanupScheduled = true := by rw [hstaged.flag, hcontrol]; rfl
  have htracking := (openStep_adds hstep).1
  apply h.mono (fun _ => hflag) (fun hnil => by rw [htracking, hnil])
  have hjoined := hstaged.joined
  rw [hcontrol] at hjoined
  cases stage with
  | thread4 =>
    have h4 : σ.listener4 = .absent := hjoined .v4 rfl
    simp only [openStep] at hstep
    split at hstep <;> cases hstep
    all_goals
      refine fun hcome => SweepToCome.of_eq ?_ ?_ ?_ hcome
      · rfl
      · rfl
      rintro (_ | _) s hpc
    · have : σ.listener4 = .queueing s := hpc
      rw [h4] at this
      cases this
    · exact hpc
    · exact hpc
    · exact hpc
  | thread6 =>
    have h6 : σ.listener6 = .absent := hjoined .v6 rfl
    simp only [openStep] at hstep
    repeat' split at hstep
    all_goals cases hstep
    all_goals
      refine fun hcome => SweepToCome.of_eq ?_ ?_ ?_ hcome
      · rfl
      · rfl
      rintro (_ | _) s hpc
    · exact hpc
    · exact hpc
    · exact hpc
    · have : σ.listener6 = .queueing s := hpc
      rw [h6] at this
      cases this
    · exact hpc
    · exact hpc
  | _ =>
    simp only [openStep] at hstep
    repeat' split at hstep
    all_goals cases hstep
    all_goals
      refine fun hcome => SweepToCome.of_eq ?_ ?_ ?_ hcome
      · rfl
      · rfl
      rintro (_ | _) s hpc <;> exact hpc

theorem closeStep_raised {stage : CloseStage} {requested : Option Nat}
    (h : closeStep σ requested stage = some σ') : σ'.control.raised = false := by
  cases stage with
  | releasing stage =>
    simp only [closeStep, Option.map_eq_some_iff] at h
    obtain ⟨⟨τ, next⟩, -, hτ⟩ := h
    cases next <;> cases hτ <;> rfl
  | reinit => cases requested <;> cases h <;> rfl
  | _ =>
    simp only [closeStep, State.cancelCleanup] at h
    split at h <;> cases h
    all_goals rfl

theorem controlStep_watched {c : ControlChoice} (hstaged : Staged σ) (h : Watched σ)
    (hstep : controlStep σ σ.control c = some σ') : Watched σ' := by
  have hstaged' := controlStep_staged hstaged hstep
  -- Nothing is claimed of a device that is not up.
  by_cases hraised : σ'.control.raised = true
  case neg =>
    intro hscheduled
    rw [hstaged'.flag] at hscheduled
    exact absurd hscheduled hraised
  cases hcontrol : σ.control with
  | opening stage requested =>
    rw [hcontrol] at hstep
    cases c with
    | proceed ok port ipv6 => exact openStep_watched hstaged hcontrol h hstep
    | _ => cases hstep
  | undoing stage requested =>
    have hflag : σ.cleanupScheduled = true := by rw [hstaged.flag, hcontrol]; rfl
    have htracking := (controlStep_adds hstep).1
    rw [hcontrol] at hstep
    cases c with
    | proceed ok port ipv6 =>
      simp only [controlStep, Option.map_eq_some_iff] at hstep
      obtain ⟨⟨τ, next⟩, hrelease, hτ⟩ := hstep
      obtain ⟨hwork, hworker, hpcs⟩ := releaseStep_watched hrelease
      apply h.mono (fun _ => hflag) htracking.nil
      cases next <;> cases hτ <;> exact SweepToCome.of_eq hwork hworker hpcs
    | _ => cases hstep
  | closing stage requested =>
    rw [hcontrol] at hstep
    cases c with
    | proceed ok port ipv6 => rw [closeStep_raised hstep] at hraised; cases hraised
    | _ => cases hstep
  | down =>
    have hnil : σ.tracking.list = [] := hstaged.drained (by rw [hcontrol]; rfl)
    exact fun _ hnonempty => absurd ((controlStep_adds hstep).1.nil hnil) hnonempty
  | failed requested =>
    have hnil : σ.tracking.list = [] := hstaged.drained (by rw [hcontrol]; rfl)
    exact fun _ hnonempty => absurd ((controlStep_adds hstep).1.nil hnil) hnonempty
  | _ =>
    rw [hcontrol] at hstep
    cases c <;> simp only [controlStep] at hstep <;> repeat' split at hstep
    all_goals cases hstep
    all_goals cases hraised

theorem kill_queueing (σ : State) (peer : Nat) {f : Family} {s : SockId}
    (h : σ.listener f = .queueing s) : (σ.kill peer).listener f = .queueing s := by
  cases f
  · have h4 : σ.listener4 = .queueing s := h
    simp only [State.kill, State.listener, h4]
  · have h6 : σ.listener6 = .queueing s := h
    simp only [State.kill, State.listener, h6]

theorem controlStep_worker {control : Control} {c : ControlChoice}
    (h : controlStep σ control c = some σ') : σ'.worker = σ.worker ∧ σ'.clock = σ.clock := by
  have hrelease {stage : ReleaseStage} {τ : State} {next : Option ReleaseStage}
      (h : releaseStep σ stage = some (τ, next)) : τ.worker = σ.worker ∧ τ.clock = σ.clock := by
    cases stage <;> simp only [releaseStep] at h <;> repeat' split at h
    all_goals cases h
    all_goals exact ⟨rfl, rfl⟩
  unfold controlStep at h
  split at h
  case h_3 stage requested ok port ipv6 =>
    cases stage <;> simp only [openStep] at h <;> repeat' split at h
    all_goals cases h
    all_goals exact ⟨rfl, rfl⟩
  case h_4 stage requested _ _ _ =>
    obtain ⟨⟨τ, next⟩, hτ, hnext⟩ := Option.map_eq_some_iff.mp h
    have hsame := hrelease hτ
    cases next <;> cases hnext <;> exact hsame
  case h_9 stage requested _ _ _ =>
    cases stage with
    | releasing stage =>
      obtain ⟨⟨τ, next⟩, hτ, hnext⟩ := Option.map_eq_some_iff.mp h
      have hsame := hrelease hτ
      cases next <;> cases hnext <;> exact hsame
    | _ =>
      simp only [closeStep, State.cancelCleanup] at h
      split at h <;> cases h
      all_goals exact ⟨rfl, rfl⟩
  all_goals
    repeat' split at h
    all_goals cases h
    all_goals exact ⟨rfl, rfl⟩

/-- Only the worker moves itself, and time does not run backwards. -/
theorem step_worker {a : Action} (hstep : step σ a = some σ') (hworker : a ≠ .worker) :
    σ'.worker = σ.worker ∧ σ.clock ≤ σ'.clock := by
  cases a with
  | worker => exact absurd rfl hworker
  | control c =>
    obtain ⟨hsame, hclock⟩ := controlStep_worker hstep
    exact ⟨hsame, hclock.ge⟩
  | listener f c =>
    cases listenerStep_move hstep <;>
      simp only [State.setListener_worker, State.setListener_clock, le_refl, and_self]
  | tick elapsed =>
    cases hstep
    exact ⟨rfl, Nat.le_add_right _ _⟩
  | promotion i ok =>
    obtain ⟨p, -, hp⟩ := Option.bind_eq_some_iff.mp hstep
    unfold promotionStep at hp
    repeat' split at hp
    all_goals cases hp
    all_goals exact ⟨rfl, le_rfl⟩
  | request i connectionId =>
    obtain ⟨p, -, rfl⟩ := Option.map_eq_some_iff.mp hstep
    unfold requestStep
    split <;> exact ⟨rfl, le_rfl⟩
  | dial i =>
    obtain ⟨p, -, hp⟩ := Option.bind_eq_some_iff.mp hstep
    split at hp <;> cases hp
    exact ⟨rfl, le_rfl⟩
  | drop i s =>
    obtain ⟨p, -, rfl⟩ := Option.map_eq_some_iff.mp hstep
    exact ⟨rfl, le_rfl⟩
  | _ =>
    simp only [step] at hstep
    repeat' split at hstep
    all_goals cases hstep
    all_goals exact ⟨rfl, le_rfl⟩

/-- Only the RTNL thread and the worker take the sweep off the queue. -/
theorem step_work {a : Action} (hstep : step σ a = some σ') (hworker : a ≠ .worker)
    (hcontrol : ¬ ∃ c, a = .control c) (hwork : σ.cleanupWork = true) : σ'.cleanupWork = true := by
  cases a with
  | worker => exact absurd rfl hworker
  | control c => exact absurd ⟨c, rfl⟩ hcontrol
  | listener f c =>
    cases listenerStep_move hstep <;> simp only [State.setListener_cleanupWork, hwork]
  | promotion i ok =>
    obtain ⟨p, -, hp⟩ := Option.bind_eq_some_iff.mp hstep
    unfold promotionStep at hp
    repeat' split at hp
    all_goals cases hp
    all_goals exact hwork
  | request i connectionId =>
    obtain ⟨p, -, rfl⟩ := Option.map_eq_some_iff.mp hstep
    unfold requestStep
    split <;> exact hwork
  | dial i =>
    obtain ⟨p, -, hp⟩ := Option.bind_eq_some_iff.mp hstep
    split at hp <;> cases hp
    exact hwork
  | drop i s =>
    obtain ⟨p, -, rfl⟩ := Option.map_eq_some_iff.mp hstep
    exact hwork
  | _ =>
    simp only [step] at hstep
    repeat' split at hstep
    all_goals cases hstep
    all_goals first | exact hwork | rfl

theorem step_watched {a : Action} (hstaged : Staged σ) (h : Watched σ)
    (hstep : step σ a = some σ') : Watched σ' := by
  by_cases hlistener : ∃ f c, a = .listener f c
  · obtain ⟨f, c, rfl⟩ := hlistener
    exact (listenerStep_move hstep).watched h
  by_cases hcontrol : ∃ c, a = .control c
  · obtain ⟨c, rfl⟩ := hcontrol
    exact controlStep_watched hstaged h hstep
  obtain ⟨-, hflag, hkeeps, hpcs⟩ := step_beside hstep
    (fun f c heq => hlistener ⟨f, c, heq⟩) (fun c heq => hcontrol ⟨c, heq⟩)
  by_cases hworker : a = .worker
  · subst hworker
    exact workerStep_watched h hstep
  apply h.mono (fun hscheduled => hflag ▸ hscheduled) hkeeps.nil
  rintro (hcome | hcome | ⟨f, s, hpc⟩)
  · exact .inl (step_work hstep hworker hcontrol hcome)
  · exact .inr (.inl ((step_worker hstep hworker).1 ▸ hcome))
  · refine .inr (.inr ⟨f, s, ?_⟩)
    rcases hpcs with ⟨h4, h6⟩ | ⟨peer, rfl⟩
    · cases f
      · exact h4.trans hpc
      · exact h6.trans hpc
    · exact kill_queueing σ peer hpc

end Watch

/-! ## Claims of the worker -/

section Claims

variable {σ σ' : State}

theorem destroyable_uncounted (σ : State) (e : ListEntry) :
    σ.destroyable e.uncounted = σ.destroyable e := rfl

/-- Steps of the worker alone, up to its last claim. -/
theorem sweep_alone (fuel : Nat) (σ : State) (hworker : σ.worker = .claiming)
    (hfuel : σ.tracking.list.length < fuel)
    (hdestroy : ∀ e ∈ σ.tracking.list, σ.destroyable e = true) :
    ∃ n, Transition.run step σ (List.replicate n .worker) =
      some { σ with tracking := (sweepLoop σ.clock fuel σ.tracking).2, worker := .checking } := by
  induction fuel generalizing σ with
  | zero => cases hfuel
  | succ fuel ih =>
    have hread : step σ .worker = some { σ with worker := .claimingAt σ.clock } := by
      simp only [step, workerStep, hworker]
    rw [sweepLoop]
    rcases claim_cleanup σ.clock σ.tracking with
      ⟨before, e, behind, hlist, -, -, hclaimed, hrest⟩ | ⟨-, hclaim⟩
    · cases hresult : wgClaimTcpConnection σ.clock none true σ.tracking with
      | mk claimed t =>
        rw [hresult] at hclaimed hrest
        simp only at hclaimed hrest
        subst hclaimed
        have hmem : e ∈ σ.tracking.list := by simp [hlist]
        have hsub : ∀ f ∈ t.list, f ∈ σ.tracking.list := by
          intro f hf
          rw [hrest] at hf
          rcases List.mem_append.mp hf with hf | hf <;> simp [hlist, hf]
        have hlt : t.list.length < fuel := by
          rw [hlist] at hfuel
          simp only [hrest, List.length_append, List.length_cons] at hfuel ⊢
          omega
        obtain ⟨n, hn⟩ := ih { σ with tracking := t, worker := .claiming } rfl hlt
          fun f hf => hdestroy f (hsub f hf)
        refine ⟨n + 3, ?_⟩
        have hclaims : step { σ with worker := .claimingAt σ.clock } .worker =
            some { σ with tracking := t, worker := .destroying e.uncounted } := by
          simp only [step, workerStep, hresult]
        have hdestroys : step { σ with tracking := t, worker := .destroying e.uncounted } .worker =
            some { σ with tracking := t, worker := .claiming } := by
          have := hdestroy e hmem
          rw [← destroyable_uncounted] at this
          exact if_pos this
        simp only [List.replicate_succ, Transition.run, hread, hclaims, hdestroys, hn]
    · refine ⟨2, ?_⟩
      have hclaims : step { σ with worker := .claimingAt σ.clock } .worker =
          some { σ with worker := .checking } := by
        simp only [step, workerStep, hclaim]
      simp only [List.replicate_succ, List.replicate_zero, Transition.run, hread, hclaims, hclaim]

/-- The worker of the device, when nothing else moves and nothing holds up a destruction. -/
theorem worker_alone (σ : State) (hworker : σ.worker = .idle) (hwork : σ.cleanupWork = true)
    (hdestroy : ∀ e ∈ σ.tracking.list, σ.destroyable e = true) :
    ∃ n, Transition.run step σ (List.replicate n .worker) =
      some { σ with
        tracking := (wgTcpCleanupWorker σ.clock σ.cleanupScheduled σ.tracking).tracking
        cleanupWork := (wgTcpCleanupWorker σ.clock σ.cleanupScheduled σ.tracking).rearmed } := by
  have hstart : step σ .worker = some { σ with worker := .claiming, cleanupWork := false } := by
    simp only [step, workerStep, hworker, hwork, if_true]
  obtain ⟨n, hn⟩ := sweep_alone (σ.tracking.list.length + 1)
    { σ with worker := .claiming, cleanupWork := false } rfl (Nat.lt_succ_self _) hdestroy
  -- What the worker does once its last claim has found nothing.
  have hlast (t : Tracking) : ∃ k, Transition.run step
      { σ with tracking := t, worker := .checking, cleanupWork := false }
      (List.replicate k .worker) = some { σ with
        tracking := t, worker := .idle, cleanupWork := !t.list.isEmpty && σ.cleanupScheduled } := by
    cases hrearm : !t.list.isEmpty && σ.cleanupScheduled with
    | false =>
      refine ⟨2, ?_⟩
      simp only [List.replicate_succ, List.replicate_zero, Transition.run, step, workerStep, hrearm,
        Bool.false_eq_true, if_false]
    | true =>
      refine ⟨3, ?_⟩
      simp only [List.replicate_succ, List.replicate_zero, Transition.run, step, workerStep, hrearm,
        if_true]
  obtain ⟨k, hk⟩ := hlast (sweepLoop σ.clock (σ.tracking.list.length + 1) σ.tracking).2
  refine ⟨1 + n + k, ?_⟩
  rw [List.replicate_add, List.replicate_add, Transition.run_append, Transition.run_append]
  simp only [List.replicate_one, Transition.run, hstart, Option.bind_some, hn, hk]
  simp only [wgTcpCleanupWorker, ← hworker]

/-- The worker destroys only what was on the list and expired when it read the clock. -/
theorem worker_claims {e : ListEntry} (hstep : step σ .worker = some σ')
    (hworker : σ'.worker = .destroying e) :
    ∃ now e₀, σ.worker = .claimingAt now ∧ e₀ ∈ σ.tracking.list ∧ e = e₀.uncounted ∧
      e₀.expired now = true := by
  simp only [step, workerStep] at hstep
  split at hstep
  case h_3 now hpc =>
    rcases claim_cleanup now σ.tracking with
      ⟨before, e₀, behind, hlist, hexpired, -, hclaimed, -⟩ | ⟨-, hclaim⟩
    · split at hstep <;> rename_i hresult <;> rw [hresult] at hclaimed <;> cases hclaimed
      cases hstep
      cases hworker
      exact ⟨now, e₀, hpc, by simp [hlist], rfl, hexpired⟩
    · rw [hclaim] at hstep
      cases hstep
      cases hworker
  all_goals
    repeat' split at hstep
    all_goals cases hstep
    all_goals cases hworker

/-- When the worker stops claiming, nothing on the list is expired. -/
theorem worker_finds_none (hstep : step σ .worker = some σ') (hworker : σ'.worker = .checking) :
    ∃ now, σ.worker = .claimingAt now ∧ ∀ e ∈ σ'.tracking.list, e.expired now = false := by
  simp only [step, workerStep] at hstep
  split at hstep
  case h_3 now hpc =>
    rcases claim_cleanup now σ.tracking with
      ⟨before, e₀, behind, -, -, -, hclaimed, -⟩ | ⟨hall, hclaim⟩
    · split at hstep <;> rename_i hresult <;> rw [hresult] at hclaimed <;> cases hclaimed
      cases hstep
      cases hworker
    · rw [hclaim] at hstep
      cases hstep
      exact ⟨now, hpc, hall⟩
  all_goals
    repeat' split at hstep
    all_goals cases hstep
    all_goals cases hworker

/-- The clock, and the reading that a claim works with, are no earlier than `start`. -/
structure Since (start : Nat) (σ : State) : Prop where
  clock : start ≤ σ.clock
  reading : ∀ now, σ.worker = .claimingAt now → start ≤ now

theorem step_since {start : Nat} {a : Action} (h : Since start σ) (hstep : step σ a = some σ') :
    Since start σ' := by
  by_cases hworker : a = .worker
  · subst hworker
    have hclock : σ'.clock = σ.clock := by
      simp only [step, workerStep] at hstep
      repeat' split at hstep
      all_goals cases hstep
      all_goals rfl
    refine ⟨hclock ▸ h.clock, fun now hnow => ?_⟩
    -- A claim has just read the clock.
    simp only [step, workerStep] at hstep
    repeat' split at hstep
    all_goals cases hstep
    all_goals cases hnow
    exact h.clock
  · obtain ⟨hsame, hclock⟩ := step_worker hstep hworker
    exact ⟨h.clock.trans hclock, fun now hnow => h.reading now (hsame ▸ hnow)⟩

theorem ktimeMsDelta_lt {later earlier : Nat} {bound : Nat} (hbound : 0 < bound) :
    ktimeMsDelta later earlier < bound ↔ later < earlier + bound * 1000000 := by
  unfold ktimeMsDelta
  by_cases hle : earlier ≤ later
  · rw [Int.tdiv_eq_ediv_of_nonneg (by omega)]
    omega
  · have hback : 0 ≤ ((earlier : Int) - later).tdiv 1000000 :=
      Int.tdiv_nonneg (by omega) (by omega)
    rw [← Int.neg_sub, Int.neg_tdiv]
    omega

/-- An entry that is past its lifetime at a time is past it later. -/
theorem lifetime_lt {start now : Nat} (hle : start ≤ now) {e : ListEntry}
    (hinit : e.initializing = false) (hauth : e.authenticated = false)
    (hkept : e.expired now = false) : ktimeMsDelta start e.createdAt < wgTcpAuthMaxLifetimeMs := by
  have hage : ktimeMsDelta now e.createdAt < (30000 : Nat) := by
    simp only [ListEntry.expired, hinit, hauth, Bool.not_false, Bool.true_and, Bool.or_eq_false_iff,
      decide_eq_false_iff_not, Int.not_le] at hkept
    exact hkept.2.2
  rw [ktimeMsDelta_lt (by decide)] at hage
  exact (@ktimeMsDelta_lt _ _ 30000 (by decide)).mpr (hle.trans_lt hage)

end Claims

/-! ## Result -/

/-- Initialised, and with a dead provisional peer or none, or not authenticated and either idle
for five seconds or thirty seconds old. -/
theorem expired_iff (now : Nat) (e : ListEntry) :
    e.expired now = true ↔ e.initializing = false ∧ (e.live = false ∨ (e.authenticated = false ∧
      (5000 ≤ ktimeMsDelta now e.timestamp ∨ 30000 ≤ ktimeMsDelta now e.createdAt))) := by
  simp only [ListEntry.expired, Bool.and_eq_true, Bool.or_eq_true, Bool.not_eq_true',
    decide_eq_true_eq]
  rfl

/-- Alone, at any time and with any list, a run of the worker destroys exactly the expired entries
and keeps the others in their order, and the worker of the device does the same. Among all other
threads it destroys only what is expired, an authenticated entry with a live peer never; behind its
last claim no initialised entry without authentication is left that was thirty seconds old when the
sweep began; and while the device is up and the list is not empty there is a sweep to come. -/
theorem cleanup_sweep_exact :
    (∀ now scheduled t,
      (wgTcpCleanupWorker now scheduled t).destroyed =
        (t.list.filter (·.expired now)).map ListEntry.uncounted ∧
      (wgTcpCleanupWorker now scheduled t).tracking.list =
        t.list.filter (fun e => !e.expired now)) ∧
    (∀ now (e : ListEntry), e.expired now = true ↔
      e.initializing = false ∧ (e.live = false ∨ (e.authenticated = false ∧
        (5000 ≤ ktimeMsDelta now e.timestamp ∨ 30000 ≤ ktimeMsDelta now e.createdAt)))) ∧
    (∀ σ : State, σ.worker = .idle → σ.cleanupWork = true →
      (∀ e ∈ σ.tracking.list, σ.destroyable e = true) →
      ∃ n, Transition.run step σ (List.replicate n .worker) = some { σ with
        tracking := (wgTcpCleanupWorker σ.clock σ.cleanupScheduled σ.tracking).tracking
        cleanupWork := (wgTcpCleanupWorker σ.clock σ.cleanupScheduled σ.tracking).rearmed }) ∧
    (∀ as σ σ' e, Reaches as σ → step σ .worker = some σ' → σ'.worker = .destroying e →
      ∃ now e₀, σ.worker = .claimingAt now ∧ e₀ ∈ σ.tracking.list ∧ e = e₀.uncounted ∧
        e₀.expired now = true ∧ ¬ (e₀.live = true ∧ e₀.authenticated = true)) ∧
    (∀ as σ bs τ τ', Reaches as σ → σ.worker = .claiming → Transition.run step σ bs = some τ →
      step τ .worker = some τ' → τ'.worker = .checking →
      ∀ e ∈ τ'.tracking.list, e.initializing = false → e.authenticated = false →
        ktimeMsDelta σ.clock e.createdAt < 30000) ∧
    (∀ as σ, Reaches as σ → σ.cleanupScheduled = true → σ.tracking.list ≠ [] →
      σ.cleanupWork = true ∨ σ.worker.sweeping = true ∨ ∃ f s, σ.listener f = .queueing s) := by
  refine ⟨wgTcpCleanupWorker_eq, expired_iff, worker_alone, ?_, ?_, ?_⟩
  · intro as σ σ' e _ hstep hworker
    obtain ⟨now, e₀, hpc, hmem, he, hexpired⟩ := worker_claims hstep hworker
    refine ⟨now, e₀, hpc, hmem, he, hexpired, ?_⟩
    rintro ⟨hlive, hauth⟩
    obtain ⟨-, hdead | ⟨hnot, -⟩⟩ := (expired_iff now e₀).mp hexpired
    · rw [hlive] at hdead
      cases hdead
    · rw [hauth] at hnot
      cases hnot
  · intro as σ bs τ τ' _ hworker hrun hstep hlast e he hinit hauth
    have hstart : Since σ.clock σ := ⟨le_rfl, fun now hnow => by rw [hworker] at hnow; cases hnow⟩
    have hsince := Transition.run_invariant (fun _ _ _ => step_since) hstart hrun
    obtain ⟨now, hpc, hnone⟩ := worker_finds_none hstep hlast
    exact lifetime_lt (hsince.reading now hpc) hinit hauth (hnone e he)
  · intro as σ h
    have hinv : Staged σ ∧ Watched σ := Transition.run_invariant
      (I := fun σ => Staged σ ∧ Watched σ)
      (fun _ _ _ hi hstep => ⟨step_staged hi.1 hstep, step_watched hi.1 hi.2 hstep⟩)
      ⟨staged_init, fun _ hnonempty => absurd rfl hnonempty⟩ h
    exact hinv.2

/-- Five idle seconds behind an accepted connection the sweep is queued, and empties the list. -/
theorem cleanup_sweep_idle : ∃ σ n τ,
    Reaches (openRun ++ acceptRun .v4 (.inet 1000 7) ++ [.tick 5000000000]) σ ∧
      σ.tracking.list.length = 1 ∧ Transition.run step σ (List.replicate n .worker) = some τ ∧
      τ.tracking.list = [] := by
  obtain ⟨σ, hrun, hcheck⟩ := Transition.exists_run_of_any (by decide +kernel :
    (Transition.run step State.init (openRun ++ acceptRun .v4 (.inet 1000 7) ++
      [.tick 5000000000])).any (fun σ => σ.tracking.list.length == 1 && σ.worker == .idle &&
        σ.cleanupWork && σ.tracking.list.all (fun e => σ.destroyable e && e.expired σ.clock)) =
      true)
  simp only [Bool.and_eq_true, beq_iff_eq, List.all_eq_true] at hcheck
  obtain ⟨⟨⟨hlength, hworker⟩, hwork⟩, hall⟩ := hcheck
  obtain ⟨hexact, -, halone, -⟩ := cleanup_sweep_exact
  obtain ⟨n, hn⟩ := halone σ hworker hwork fun e he => (hall e he).1
  refine ⟨σ, n, _, hrun, hlength, hn, ?_⟩
  show (wgTcpCleanupWorker σ.clock σ.cleanupScheduled σ.tracking).tracking.list = []
  rw [(hexact σ.clock σ.cleanupScheduled σ.tracking).2, List.filter_eq_nil_iff]
  intro e he
  simp [(hall e he).2]

end Listener

end WgTcp
