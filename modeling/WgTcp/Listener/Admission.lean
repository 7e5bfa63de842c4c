import WgTcp.Listener.Machine

/-!
# Admission accounting

Whatever the threads of a device do, the list and its counters agree. The
sections under the list lock keep `Tracking.Accounted`; the one fact about the
threads that is needed is that the numbers of entries still to be added are new.
-/

namespace WgTcp

namespace Listener

open FirstMatch
open Netlink (SockAddr)

/-! ## What a section may do to the list -/

/-- The counters stay right, and no number comes onto the list. -/
structure Tracking.Keeps (t t' : Tracking) : Prop where
  accounted : t.Accounted → t'.Accounted
  sequence : t'.sequence = t.sequence
  ids : ∀ e' ∈ t'.list, ∃ e ∈ t.list, e.connectionId = e'.connectionId

section Sections

variable {t t' : Tracking} {e e' : ListEntry} {before behind : List ListEntry}

theorem Tracking.Keeps.refl (t : Tracking) : t.Keeps t := ⟨id, rfl, fun e he => ⟨e, he, rfl⟩⟩

theorem Tracking.Keeps.nil (h : t.Keeps t') (hnil : t.list = []) : t'.list = [] := by
  rw [List.eq_nil_iff_forall_not_mem]
  intro e' he'
  obtain ⟨e, he, -⟩ := h.ids e' he'
  rw [hnil] at he
  cases he

/-- The members of a list in which one entry was replaced. -/
theorem ids_replace (hid : e'.connectionId = e.connectionId)
    (hlist : t.list = before ++ e :: behind)
    (f : ListEntry) (hf : f ∈ before ++ e' :: behind) :
    ∃ g ∈ t.list, g.connectionId = f.connectionId := by
  rcases List.mem_append.mp hf with hf | hf
  · exact ⟨f, by simp [hlist, hf], rfl⟩
  · rcases List.mem_cons.mp hf with rfl | hf
    · exact ⟨e, by simp [hlist], hid.symm⟩
    · exact ⟨f, by simp [hlist, hf], rfl⟩

theorem ids_unlink (hlist : t.list = before ++ e :: behind) (f : ListEntry)
    (hf : f ∈ before ++ behind) : ∃ g ∈ t.list, g.connectionId = f.connectionId := by
  refine ⟨f, ?_, rfl⟩
  rw [hlist]
  rcases List.mem_append.mp hf with hf | hf <;> simp [hf]

theorem release_fields (e : ListEntry) (t : Tracking) :
    (wgTcpReleaseAdmissionLocked e t).2.sequence = t.sequence ∧
      (wgTcpReleaseAdmissionLocked e t).1 = { e with admissionCounted := false } := by
  unfold wgTcpReleaseAdmissionLocked
  cases hc : e.admissionCounted with
  | false =>
    obtain ⟨⟩ := e
    cases hc
    exact ⟨rfl, rfl⟩
  | true =>
    simp only [Bool.not_true, Bool.false_eq_true, if_false]
    split <;> exact ⟨rfl, rfl⟩

theorem untrack_sequence (t : Tracking) : t.untrack.sequence = t.sequence := by
  unfold Tracking.untrack
  split <;> rfl

theorem claim_keeps (now : Nat) (pendingSocket : Option SockId) (cleanupOnly : Bool)
    (t : Tracking) : t.Keeps (wgClaimTcpConnection now pendingSocket cleanupOnly t).2 := by
  refine ⟨fun h => h.claim now pendingSocket cleanupOnly, ?_, ?_⟩ <;>
    unfold wgClaimTcpConnection <;> split
  · rfl
  · exact (untrack_sequence _).trans (release_fields _ _).1
  · exact fun e he => ⟨e, he, rfl⟩
  · rename_i before e behind hfound
    exact ids_unlink (firstMatch_eq_some hfound).1

theorem authenticate_fields (now : Nat) (e : ListEntry) (t : Tracking) :
    (authenticate now e t).2.sequence = t.sequence ∧
      (authenticate now e t).1.connectionId = e.connectionId := by
  obtain ⟨hsequence, hentry⟩ := release_fields { e with authenticated := true } t
  unfold authenticate
  refine ⟨hsequence, ?_⟩
  simp only [hentry]

theorem mark_keeps (now connectionId : Nat) (t : Tracking) :
    t.Keeps (wgTcpMarkConnectionAuthenticated now connectionId t) := by
  refine ⟨fun h => h.mark now connectionId, ?_, ?_⟩ <;>
    unfold wgTcpMarkConnectionAuthenticated <;> split
  · rfl
  · split
    · rfl
    · exact (authenticate_fields _ _ _).1
  · exact fun e he => ⟨e, he, rfl⟩
  · split
    · exact fun e he => ⟨e, he, rfl⟩
    · rename_i before e behind hfound
      exact ids_replace (authenticate_fields _ _ _).2 (firstMatch_eq_some hfound).1

theorem claimAuthenticated_keeps (now connectionId : Nat) (stale : Bool) (t : Tracking) :
    t.Keeps (claimAuthenticated now connectionId stale t).2 := by
  refine ⟨fun h => h.claimAuthenticated now connectionId stale, ?_, ?_⟩ <;>
    unfold claimAuthenticated <;> split
  · rfl
  · simp only
    split
    · exact (untrack_sequence _).trans (authenticate_fields _ _ _).1
    · exact (authenticate_fields _ _ _).1
  · exact fun e he => ⟨e, he, rfl⟩
  · rename_i before e behind hfound
    have hlist := (firstMatch_eq_some hfound).1
    simp only
    split
    · exact ids_unlink hlist
    · exact ids_replace (authenticate_fields _ _ _).2 hlist

theorem finishInit_keeps (established : Bool) (s : SockId) (t : Tracking) :
    t.Keeps (wgFinishTcpConnectionInit established s t).2 := by
  refine ⟨fun h => h.finishInit established s, ?_, ?_⟩ <;>
    unfold wgFinishTcpConnectionInit <;> split
  · rfl
  · rfl
  · exact fun e he => ⟨e, he, rfl⟩
  · rename_i before e behind hfound
    apply ids_replace _ (firstMatch_eq_some hfound).1
    simp only
    split <;> rfl

theorem touch_keeps (now peer : Nat) (t : Tracking) :
    t.Keeps (wgTouchTcpConnection now peer t) := by
  refine ⟨fun h => h.touch now peer, ?_, ?_⟩ <;> unfold wgTouchTcpConnection <;> split
  · rfl
  · rfl
  · exact fun e he => ⟨e, he, rfl⟩
  · rename_i before e behind hfound
    refine ids_replace ?_ (firstMatch_eq_some hfound).1
    rfl

theorem kill_keeps (peer : Nat) (t : Tracking) : t.Keeps (t.kill peer) := by
  refine ⟨fun h => h.kill peer, rfl, ?_⟩
  intro e' he'
  obtain ⟨e, he, rfl⟩ := List.mem_map.mp he'
  refine ⟨e, he, ?_⟩
  split <;> rfl

end Sections

/-! ## Steps of the device -/

section Steps

variable {σ σ' : State}

/-- Entries on their way to the list are only forgotten, or marked dead. -/
def AddsNothing (σ σ' : State) : Prop :=
  ∀ f e', σ'.listener f = .adding e' → ∃ e, σ.listener f = .adding e ∧
    e'.connectionId = e.connectionId ∧ e'.admissionCounted = e.admissionCounted ∧
    e'.authenticated = e.authenticated

theorem AddsNothing.of_imp (h : ∀ f e, σ'.listener f = .adding e → σ.listener f = .adding e) :
    AddsNothing σ σ' :=
  fun f e he => ⟨e, h f e he, rfl, rfl, rfl⟩

theorem AddsNothing.of_eq (h4 : σ'.listener4 = σ.listener4) (h6 : σ'.listener6 = σ.listener6) :
    AddsNothing σ σ' := by
  apply AddsNothing.of_imp
  rintro (_ | _) e h
  · exact h4.symm.trans h
  · exact h6.symm.trans h

theorem releaseStep_adds {stage : ReleaseStage} {next : Option ReleaseStage}
    (h : releaseStep σ stage = some (σ', next)) :
    σ'.tracking = σ.tracking ∧ AddsNothing σ σ' := by
  cases stage with
  | shutdown =>
    cases h
    exact ⟨rfl, .of_eq rfl rfl⟩
  | join4 =>
    simp only [releaseStep] at h
    split at h <;> cases h
    refine ⟨rfl, .of_imp ?_⟩
    rintro (_ | _) e h
    · cases h
    · exact h
  | join6 =>
    simp only [releaseStep] at h
    split at h <;> cases h
    refine ⟨rfl, .of_imp ?_⟩
    rintro (_ | _) e h
    · exact h
    · cases h
  | release =>
    cases h
    exact ⟨rfl, .of_eq rfl rfl⟩

theorem openStep_adds {stage : OpenStage} {requested port : Nat} {ok ipv6 : Bool}
    (h : openStep σ requested ok port ipv6 stage = some σ') :
    σ'.tracking = σ.tracking ∧ AddsNothing σ σ' := by
  cases stage with
  | thread4 =>
    simp only [openStep] at h
    split at h <;> cases h
    · refine ⟨rfl, .of_imp ?_⟩
      rintro (_ | _) e h
      · cases h
      · exact h
    · exact ⟨rfl, .of_eq rfl rfl⟩
  | thread6 =>
    simp only [openStep] at h
    repeat' split at h
    all_goals cases h
    · exact ⟨rfl, .of_eq rfl rfl⟩
    · refine ⟨rfl, .of_imp ?_⟩
      rintro (_ | _) e h
      · exact h
      · cases h
    · exact ⟨rfl, .of_eq rfl rfl⟩
  | _ =>
    simp only [openStep] at h
    repeat' split at h
    all_goals cases h
    all_goals exact ⟨rfl, .of_eq rfl rfl⟩

theorem closeStep_adds {stage : CloseStage} {requested : Option Nat}
    (h : closeStep σ requested stage = some σ') :
    σ.tracking.Keeps σ'.tracking ∧ AddsNothing σ σ' := by
  cases stage with
  | releasing stage =>
    simp only [closeStep, Option.map_eq_some_iff] at h
    obtain ⟨⟨τ, next⟩, hrelease, hτ⟩ := h
    obtain ⟨htracking, hadds⟩ := releaseStep_adds hrelease
    cases next <;> cases hτ <;> exact ⟨htracking ▸ .refl _, hadds⟩
  | drain =>
    have hkeeps := claim_keeps σ.clock none false σ.tracking
    simp only [closeStep] at h
    split at h <;> rename_i hclaim <;> cases h <;> rw [hclaim] at hkeeps <;>
      exact ⟨hkeeps, .of_eq rfl rfl⟩
  | cancel =>
    simp only [closeStep, State.cancelCleanup] at h
    split at h <;> cases h
    exact ⟨.refl _, .of_eq rfl rfl⟩
  | cancelAgain =>
    simp only [closeStep, State.cancelCleanup] at h
    split at h <;> cases h
    exact ⟨.refl _, .of_eq rfl rfl⟩
  | destroy e =>
    simp only [closeStep] at h
    split at h <;> cases h
    exact ⟨.refl _, .of_eq rfl rfl⟩
  | reinit =>
    cases requested <;> cases h <;> exact ⟨.refl _, .of_eq rfl rfl⟩

theorem controlStep_adds {c : ControlChoice} (h : controlStep σ σ.control c = some σ') :
    σ.tracking.Keeps σ'.tracking ∧ AddsNothing σ σ' := by
  cases hcontrol : σ.control with
  | opening stage requested =>
    rw [hcontrol] at h
    cases c with
    | proceed ok port ipv6 =>
      obtain ⟨htracking, hadds⟩ := openStep_adds h
      exact ⟨htracking ▸ .refl _, hadds⟩
    | _ => cases h
  | undoing stage requested =>
    rw [hcontrol] at h
    cases c with
    | proceed ok port ipv6 =>
      simp only [controlStep, Option.map_eq_some_iff] at h
      obtain ⟨⟨τ, next⟩, hrelease, hτ⟩ := h
      obtain ⟨htracking, hadds⟩ := releaseStep_adds hrelease
      cases next <;> cases hτ <;> exact ⟨htracking ▸ .refl _, hadds⟩
    | _ => cases h
  | closing stage requested =>
    rw [hcontrol] at h
    cases c with
    | proceed ok port ipv6 => exact closeStep_adds h
    | _ => cases h
  | stopping i =>
    rw [hcontrol] at h
    cases c with
    | proceed ok port ipv6 =>
      simp only [controlStep] at h
      split at h <;> cases h <;> exact ⟨.refl _, .of_eq rfl rfl⟩
    | _ => cases h
  | quieting i =>
    rw [hcontrol] at h
    cases c with
    | proceed ok port ipv6 =>
      simp only [controlStep] at h
      repeat' split at h
      all_goals cases h
      exact ⟨.refl _, .of_eq rfl rfl⟩
    | _ => cases h
  | _ =>
    rw [hcontrol] at h
    cases c <;> cases h
    all_goals exact ⟨.refl _, .of_eq rfl rfl⟩

theorem workerStep_keeps (h : workerStep σ = some σ') : σ.tracking.Keeps σ'.tracking := by
  unfold workerStep at h
  split at h
  case h_3 now _ =>
    have hkeeps := claim_keeps now none true σ.tracking
    split at h <;> rename_i hclaim <;> cases h <;> rw [hclaim] at hkeeps <;> exact hkeeps
  all_goals
    repeat' split at h
    all_goals cases h
    all_goals exact .refl _

theorem promotionStep_keeps {i : Nat} {ok : Bool} {p : CarrierPeer}
    (h : promotionStep σ i ok p = some σ') : σ.tracking.Keeps σ'.tracking := by
  unfold promotionStep at h
  split at h
  case h_3 connectionId _ =>
    have hkeeps := claimAuthenticated_keeps σ.clock connectionId (!ok) σ.tracking
    split at h <;> rename_i hclaim <;> cases h <;> rw [hclaim] at hkeeps <;> exact hkeeps
  all_goals
    repeat' split at h
    all_goals cases h
    all_goals exact .refl _

/-- A marked thread that is about to add an entry was about to add it before. -/
theorem marked_adding {peer : Nat} {pc : ListenerPc} {e' : ListEntry}
    (h : (match pc with
      | .adding e => .adding (if e.ownedBy peer then e.kill else e)
      | pc => pc) = ListenerPc.adding e') :
    ∃ e, pc = .adding e ∧ e'.connectionId = e.connectionId ∧
      e'.admissionCounted = e.admissionCounted ∧ e'.authenticated = e.authenticated := by
  cases pc with
  | adding e =>
    cases h
    refine ⟨e, rfl, ?_⟩
    split <;> exact ⟨rfl, rfl, rfl⟩
  | _ => cases h

theorem kill_adds (σ : State) (peer : Nat) : AddsNothing σ (σ.kill peer) := by
  rintro (_ | _) e' h
  · exact marked_adding h
  · exact marked_adding h

/-- A step of another thread: the stage stays, and so do the listener threads, at most marked. -/
theorem step_beside {a : Action} (hstep : step σ a = some σ')
    (hlistener : ∀ f c, a ≠ .listener f c) (hcontrol : ∀ c, a ≠ .control c) :
    σ'.control = σ.control ∧ σ'.cleanupScheduled = σ.cleanupScheduled ∧
      σ.tracking.Keeps σ'.tracking ∧
      ((σ'.listener4 = σ.listener4 ∧ σ'.listener6 = σ.listener6) ∨ ∃ peer, σ' = σ.kill peer) := by
  cases a with
  | listener f c => exact absurd rfl (hlistener f c)
  | control c => exact absurd rfl (hcontrol c)
  | worker =>
    have hkeeps := workerStep_keeps hstep
    simp only [step, workerStep] at hstep
    repeat' split at hstep
    all_goals cases hstep
    all_goals exact ⟨rfl, rfl, hkeeps, .inl ⟨rfl, rfl⟩⟩
  | touch peer =>
    cases hstep
    exact ⟨rfl, rfl, touch_keeps .., .inl ⟨rfl, rfl⟩⟩
  | mark connectionId =>
    cases hstep
    exact ⟨rfl, rfl, mark_keeps .., .inl ⟨rfl, rfl⟩⟩
  | kill peer =>
    cases hstep
    exact ⟨rfl, rfl, kill_keeps peer σ.tracking, .inr ⟨peer, rfl⟩⟩
  | promotion i ok =>
    obtain ⟨p, -, hp⟩ := Option.bind_eq_some_iff.mp hstep
    have hkeeps := promotionStep_keeps hp
    unfold promotionStep at hp
    repeat' split at hp
    all_goals cases hp
    all_goals exact ⟨rfl, rfl, hkeeps, .inl ⟨rfl, rfl⟩⟩
  | request i connectionId =>
    obtain ⟨p, -, rfl⟩ := Option.map_eq_some_iff.mp hstep
    unfold requestStep
    split <;> exact ⟨rfl, rfl, .refl _, .inl ⟨rfl, rfl⟩⟩
  | dial i =>
    obtain ⟨p, -, hp⟩ := Option.bind_eq_some_iff.mp hstep
    split at hp <;> cases hp
    exact ⟨rfl, rfl, .refl _, .inl ⟨rfl, rfl⟩⟩
  | drop i s =>
    obtain ⟨p, -, rfl⟩ := Option.map_eq_some_iff.mp hstep
    exact ⟨rfl, rfl, .refl _, .inl ⟨rfl, rfl⟩⟩
  | setPort port =>
    simp only [step] at hstep
    split at hstep <;> cases hstep <;> exact ⟨‹_› ▸ rfl, rfl, .refl _, .inl ⟨rfl, rfl⟩⟩
  | tick elapsed =>
    cases hstep
    exact ⟨rfl, rfl, .refl _, .inl ⟨rfl, rfl⟩⟩
  | _ =>
    simp only [step] at hstep
    split at hstep <;> cases hstep
    exact ⟨rfl, rfl, .refl _, .inl ⟨rfl, rfl⟩⟩

/-! ## The invariant -/

/-- The numbers of entries that are still to be added are new, and no two are the same. -/
structure Numbered (σ : State) : Prop where
  accounted : σ.tracking.Accounted
  counted : ∀ f e, σ.listener f = .adding e →
    e.admissionCounted = true ∧ e.authenticated = false
  numbered : ∀ f e, σ.listener f = .adding e →
    0 < e.connectionId ∧ e.connectionId ≤ σ.tracking.sequence
  new : ∀ f e, σ.listener f = .adding e → ∀ g ∈ σ.tracking.list, g.connectionId ≠ e.connectionId
  apart : ∀ f g e e', f ≠ g → σ.listener f = .adding e → σ.listener g = .adding e' →
    e.connectionId ≠ e'.connectionId

theorem numbered_init : Numbered State.init where
  accounted := accounted_empty
  counted := by rintro (_ | _) e h <;> cases h
  numbered := by rintro (_ | _) e h <;> cases h
  new := by rintro (_ | _) e h <;> cases h
  apart := by rintro (_ | _) g e e' _ h <;> cases h

theorem Numbered.keeps (h : Numbered σ) (hkeeps : σ.tracking.Keeps σ'.tracking)
    (hadds : AddsNothing σ σ') : Numbered σ' := by
  constructor
  case accounted => exact hkeeps.accounted h.accounted
  case counted =>
    intro f e' he'
    obtain ⟨e, he, -, hcounted, hauth⟩ := hadds f e' he'
    rw [hcounted, hauth]
    exact h.counted f e he
  case numbered =>
    intro f e' he'
    obtain ⟨e, he, hid, -, -⟩ := hadds f e' he'
    rw [hid, hkeeps.sequence]
    exact h.numbered f e he
  case new =>
    intro f e' he' g' hg'
    obtain ⟨e, he, hid, -, -⟩ := hadds f e' he'
    obtain ⟨g, hg, hgid⟩ := hkeeps.ids g' hg'
    rw [hid, ← hgid]
    exact h.new f e he g hg
  case apart =>
    intro f g e' d' hfg he' hd'
    obtain ⟨e, he, hid, -, -⟩ := hadds f e' he'
    obtain ⟨d, hd, hdid, -, -⟩ := hadds g d' hd'
    rw [hid, hdid]
    exact h.apart f g e d hfg he hd

/-- A listener thread that is not about to add an entry. -/
theorem AddsNothing.setListener {τ : State} {f : Family} {pc : ListenerPc}
    (h4 : τ.listener4 = σ.listener4) (h6 : τ.listener6 = σ.listener6)
    (hpc : ∀ e, pc ≠ .adding e) : AddsNothing σ (τ.setListener f pc) := by
  have hsame : ∀ g, τ.listener g = σ.listener g := by
    rintro (_ | _)
    · exact h4
    · exact h6
  apply AddsNothing.of_imp
  intro g e h
  rw [State.listener_setListener] at h
  split at h
  · exact absurd h (hpc e)
  · rw [← hsame g]
    exact h

theorem ne_adding_of_entry {pc : ListenerPc} (h : pc.entry = none) (e : ListEntry) :
    pc ≠ .adding e := by
  rintro rfl
  cases h

theorem Numbered.setListener {τ : State} {f : Family} {pc : ListenerPc} (h : Numbered σ)
    (hkeeps : σ.tracking.Keeps τ.tracking) (h4 : τ.listener4 = σ.listener4)
    (h6 : τ.listener6 = σ.listener6) (hpc : ∀ e, pc ≠ .adding e) :
    Numbered (τ.setListener f pc) := by
  apply h.keeps
  · rw [State.setListener_tracking]
    exact hkeeps
  · exact .setListener h4 h6 hpc

/-- A new number for a new entry. -/
theorem Numbered.prepare (h : Numbered σ) (f : Family) (s : SockId) (addr : SockAddr) :
    Numbered ({ σ with tracking := (wgNewListEntry s s addr σ.clock σ.tracking).2 }.setListener f
      (.adding (wgNewListEntry s s addr σ.clock σ.tracking).1)) := by
  have hother {g : Family} {e : ListEntry} (hg : ({ σ with
      tracking := (wgNewListEntry s s addr σ.clock σ.tracking).2 }.setListener f
        (.adding (wgNewListEntry s s addr σ.clock σ.tracking).1)).listener g = .adding e) :
      (g = f ∧ e = (wgNewListEntry s s addr σ.clock σ.tracking).1) ∨
        (g ≠ f ∧ σ.listener g = .adding e) := by
    rw [State.listener_setListener] at hg
    split at hg
    · cases hg
      exact .inl ⟨‹_›, rfl⟩
    · refine .inr ⟨‹_›, ?_⟩
      cases g <;> exact hg
  constructor
  case accounted =>
    rw [State.setListener_tracking]
    exact { h.accounted with
      numbered := fun e he => ⟨(h.accounted.numbered e he).1,
        (h.accounted.numbered e he).2.trans (Nat.le_succ _)⟩ }
  case counted =>
    intro g e hg
    rcases hother hg with ⟨-, rfl⟩ | ⟨-, hg⟩
    · exact ⟨rfl, rfl⟩
    · exact h.counted g e hg
  case numbered =>
    intro g e hg
    rw [State.setListener_tracking]
    rcases hother hg with ⟨-, rfl⟩ | ⟨-, hg⟩
    · exact ⟨Nat.succ_pos _, Nat.le_refl _⟩
    · exact ⟨(h.numbered g e hg).1, (h.numbered g e hg).2.trans (Nat.le_succ _)⟩
  case new =>
    intro g e hg d hd
    rw [State.setListener_tracking] at hd
    rcases hother hg with ⟨-, rfl⟩ | ⟨-, hg⟩
    · exact Nat.ne_of_lt (Nat.lt_succ_of_le (h.accounted.numbered d hd).2)
    · exact h.new g e hg d hd
  case apart =>
    intro g g' e e' hne hg hg'
    rcases hother hg with ⟨hf, rfl⟩ | ⟨-, hold⟩ <;>
      rcases hother hg' with ⟨hf', rfl⟩ | ⟨-, hold'⟩
    · exact absurd (hf.trans hf'.symm) hne
    · exact Nat.ne_of_gt (Nat.lt_succ_of_le (h.numbered g' e' hold').2)
    · exact Nat.ne_of_lt (Nat.lt_succ_of_le (h.numbered g e hold).2)
    · exact h.apart g g' e e' hne hold hold'

/-- The entry joins the list; the entry of the other thread has another number. -/
theorem Numbered.add {f : Family} {e : ListEntry} {t : Tracking} (h : Numbered σ)
    (hpc : σ.listener f = .adding e)
    (hadd : wgAddTcpSocketToList σ.cleanupScheduled e σ.tracking = some t) (s : SockId) :
    Numbered ({ σ with tracking := t }.setListener f (.queueing s)) := by
  obtain ⟨hcounted, hauth⟩ := h.counted f e hpc
  have haccounted := h.accounted.add hcounted hauth (h.numbered f e hpc) (h.new f e hpc) hadd
  have hlist : t.list = σ.tracking.list ++ [e] ∧ t.sequence = σ.tracking.sequence := by
    unfold wgAddTcpSocketToList at hadd
    split at hadd <;> cases hadd
    exact ⟨rfl, rfl⟩
  have hother {g : Family} {d : ListEntry} (hg : ({ σ with tracking := t }.setListener f
      (.queueing s)).listener g = .adding d) : g ≠ f ∧ σ.listener g = .adding d := by
    rw [State.listener_setListener] at hg
    split at hg
    · cases hg
    · refine ⟨‹_›, ?_⟩
      cases g <;> exact hg
  constructor
  case accounted =>
    rw [State.setListener_tracking]
    exact haccounted
  case counted => exact fun g d hg => h.counted g d (hother hg).2
  case numbered =>
    intro g d hg
    rw [State.setListener_tracking]
    exact hlist.2 ▸ h.numbered g d (hother hg).2
  case new =>
    intro g d hg c hc
    obtain ⟨hne, hd⟩ := hother hg
    rw [State.setListener_tracking] at hc
    change c ∈ t.list at hc
    rw [hlist.1] at hc
    rcases List.mem_append.mp hc with hc | hc
    · exact h.new g d hd c hc
    · rw [List.mem_singleton.mp hc]
      exact h.apart f g e d hne.symm hpc hd
  case apart => exact fun g g' d d' hne hg hg' => h.apart g g' d d' hne (hother hg).2 (hother hg').2

theorem ListenerMove.numbered {f : Family} (hmove : ListenerMove σ f σ') (h : Numbered σ) :
    Numbered σ' := by
  cases hmove with
  | plain n _ _ _ _ hafter =>
    exact h.setListener (.refl _) rfl rfl (ne_adding_of_entry hafter)
  | claim hpc _ hadding _ => exact h.setListener (claim_keeps ..) rfl rfl hadding
  | destroy _ _ _ _ hafter => exact h.setListener (.refl _) rfl rfl (ne_adding_of_entry hafter)
  | prepare hpc => exact h.prepare f _ _
  | refuse hpc => exact h.setListener (.refl _) rfl rfl (by simp)
  | add hpc hadd => exact h.add hpc hadd _
  | queue hpc => exact h.setListener (.refl _) rfl rfl (by simp)
  | finish established hpc => exact h.setListener (finishInit_keeps ..) rfl rfl (by simp)
  | kick hpc => exact h.setListener (.refl _) rfl rfl (by simp)

theorem step_numbered {a : Action} (h : Numbered σ) (hstep : step σ a = some σ') : Numbered σ' := by
  by_cases hlistener : ∃ f c, a = .listener f c
  · obtain ⟨f, c, rfl⟩ := hlistener
    exact (listenerStep_move hstep).numbered h
  by_cases hcontrol : ∃ c, a = .control c
  · obtain ⟨c, rfl⟩ := hcontrol
    obtain ⟨hkeeps, hadds⟩ := controlStep_adds hstep
    exact h.keeps hkeeps hadds
  obtain ⟨-, -, hkeeps, hpcs⟩ := step_beside hstep
    (fun f c heq => hlistener ⟨f, c, heq⟩) (fun c heq => hcontrol ⟨c, heq⟩)
  apply h.keeps hkeeps
  rcases hpcs with ⟨h4, h6⟩ | ⟨peer, rfl⟩
  · exact .of_eq h4 h6
  · exact kill_adds σ peer

end Steps

/-! ## Result -/

/-- In every state of a device the counters are those of the list, authenticated connections do
not count against admission, numbers are distinct, all limits hold, and no counter has been
decremented below zero. -/
theorem admission_accounting (as : List Action) (σ : State) (h : Reaches as σ) :
    σ.tracking.pending = σ.tracking.list.countP (·.admissionCounted) ∧
    σ.tracking.tracked = σ.tracking.list.length ∧
    (∀ e ∈ σ.tracking.list, e.authenticated = true → e.admissionCounted = false) ∧
    (σ.tracking.list.map (·.connectionId)).Nodup ∧
    (∀ e ∈ σ.tracking.list, e.connectionId ≠ 0) ∧
    σ.tracking.pending ≤ 128 ∧ σ.tracking.tracked ≤ 1024 ∧
    (∀ addr, σ.tracking.list.countP
      (fun e => e.admissionCounted && wgSockaddrsSameHost addr e.srcAddr) ≤ 8) ∧
    σ.tracking.warned = false := by
  have hinv := (Transition.run_invariant (fun _ _ _ => step_numbered) numbered_init h).accounted
  exact ⟨hinv.pending, hinv.tracked, hinv.released, hinv.distinct,
    fun e he => Nat.pos_iff_ne_zero.mp (hinv.numbered e he).1, hinv.pending_le, hinv.tracked_le,
    hinv.source_le, hinv.unwarned⟩

def openRun : List Action :=
  .control .openDevice :: List.replicate 6 (.control (.proceed true 51820 false))

/-- A connection is accepted, put on the list and initialised. -/
def acceptRun (f : Family) (addr : SockAddr) : List Action :=
  [.listener f (.accept addr), .listener f (.answer true), .listener f (.found none),
    .listener f (.answer true), .listener f (.answer true), .listener f (.answer true),
    .listener f (.answer true), .listener f (.answer true)]

theorem admission_accounting_two : ∃ σ,
    Reaches (openRun ++ acceptRun .v4 (.inet 1000 7) ++ acceptRun .v4 (.inet 1001 7) ++ [.mark 1])
      σ ∧ σ.tracking.list.length = 2 ∧ σ.tracking.pending = 1 ∧
      (σ.tracking.list.map (·.connectionId)).Nodup := by
  obtain ⟨σ, hrun, hcheck⟩ := Transition.exists_run_of_any (by decide +kernel :
    (Transition.run step State.init (openRun ++ acceptRun .v4 (.inet 1000 7) ++
      acceptRun .v4 (.inet 1001 7) ++ [.mark 1])).any
      (fun σ => σ.tracking.list.length == 2 && σ.tracking.pending == 1) = true)
  simp only [Bool.and_eq_true, beq_iff_eq] at hcheck
  exact ⟨σ, hrun, hcheck.1, hcheck.2, (admission_accounting _ σ hrun).2.2.2.1⟩

end Listener

end WgTcp
