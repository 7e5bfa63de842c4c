import Mathlib

/-!
# Runs of a transition function

A system is a partial step function from states and actions to states; a run is
the list of its actions. The rules below turn facts about one step into facts
about whole runs: invariants, invariants of runs whose steps all meet a side
condition, invariants that mention what has happened so far, and bounds on the
length of runs that consume a measure.
-/

namespace Transition

variable {σ α : Type*}

/-- Perform the actions in order; `none` when one of them is not enabled. -/
def run (step : σ → α → Option σ) : σ → List α → Option σ
  | s, [] => some s
  | s, a :: rest =>
      match step s a with
      | none => none
      | some t => run step t rest

/-- Every action of the run meets `cond` in the state in which it is performed. -/
def Meets (step : σ → α → Option σ) (cond : σ → α → Prop) : σ → List α → Prop
  | _, [] => True
  | s, a :: rest => cond s a ∧ ∀ t, step s a = some t → Meets step cond t rest

/-- Some action of the run meets `event` in the state in which it is performed. -/
def Happens (step : σ → α → Option σ) (event : σ → α → Prop) : σ → List α → Prop
  | _, [] => False
  | s, a :: rest => event s a ∨ ∃ t, step s a = some t ∧ Happens step event t rest

variable {step : σ → α → Option σ}

instance Happens.decidable {event : σ → α → Prop} [∀ s a, Decidable (event s a)] :
    ∀ s as, Decidable (Happens step event s as)
  | _, [] => .isFalse id
  | s, a :: rest =>
      match h : step s a with
      | none => decidable_of_iff (event s a) (by simp [Happens, h])
      | some t =>
          have := (Happens.decidable t rest : Decidable (Happens step event t rest))
          decidable_of_iff (event s a ∨ Happens step event t rest) (by simp [Happens, h])

instance Meets.decidable {cond : σ → α → Prop} [∀ s a, Decidable (cond s a)] :
    ∀ s as, Decidable (Meets step cond s as)
  | _, [] => .isTrue trivial
  | s, a :: rest =>
      match h : step s a with
      | none => decidable_of_iff (cond s a) (by simp [Meets, h])
      | some t =>
          have := (Meets.decidable t rest : Decidable (Meets step cond t rest))
          decidable_of_iff (cond s a ∧ Meets step cond t rest) (by simp [Meets, h])

@[simp] theorem run_nil (s : σ) : run step s [] = some s := rfl

theorem run_cons_eq_some {s u : σ} {a : α} {rest : List α} :
    run step s (a :: rest) = some u ↔ ∃ t, step s a = some t ∧ run step t rest = some u := by
  rw [run]
  cases step s a <;> simp

theorem run_append {s : σ} {as bs : List α} :
    run step s (as ++ bs) = (run step s as).bind fun t => run step t bs := by
  induction as generalizing s with
  | nil => rfl
  | cons a as ih =>
    rw [List.cons_append, run, run]
    cases step s a with
    | none => rfl
    | some t => exact ih

/-- What has happened stays so, and the last action may be what happens. -/
theorem happens_concat {event : σ → α → Prop} {s t : σ} {as : List α} {a : α}
    (h : run step s as = some t) :
    Happens step event s (as ++ [a]) ↔ Happens step event s as ∨ event t a := by
  induction as generalizing s with
  | nil =>
    cases h
    simp [Happens]
  | cons b as ih =>
    obtain ⟨u, hu, h⟩ := run_cons_eq_some.mp h
    simp [Happens, hu, ih h, or_assoc]

/-- A condition that only looks at the action. -/
theorem meets_of_forall_mem {cond : σ → α → Prop} {as : List α}
    (h : ∀ s, ∀ a ∈ as, cond s a) (s : σ) : Meets step cond s as := by
  induction as generalizing s with
  | nil => trivial
  | cons a as ih =>
    refine ⟨h s a (by simp), fun t _ => ih ?_ t⟩
    intro u b hb
    exact h u b (by simp [hb])

theorem meets_append {cond : σ → α → Prop} {s : σ} {as bs : List α} :
    Meets step cond s (as ++ bs) ↔
      Meets step cond s as ∧ ∀ t, run step s as = some t → Meets step cond t bs := by
  induction as generalizing s with
  | nil => simp [Meets]
  | cons a as ih =>
    simp only [List.cons_append, Meets, ih, run_cons_eq_some]
    constructor
    · rintro ⟨ha, hrest⟩
      refine ⟨⟨ha, fun t ht => (hrest t ht).1⟩, ?_⟩
      rintro u ⟨t, ht, hu⟩
      exact (hrest t ht).2 u hu
    · rintro ⟨⟨ha, hrest⟩, hbs⟩
      exact ⟨ha, fun t ht => ⟨hrest t ht, fun u hu => hbs u ⟨t, ht, hu⟩⟩⟩

/-- A run of fixed actions that a test accepts at its end. -/
theorem exists_run_of_any {check : σ → Bool} {s : σ} {as : List α}
    (h : (run step s as).any check = true) : ∃ t, run step s as = some t ∧ check t = true := by
  cases hrun : run step s as with
  | none => simp [hrun] at h
  | some t => exact ⟨t, rfl, by simpa [hrun] using h⟩

/-- What every step keeps, every run keeps. -/
theorem run_invariant {I : σ → Prop}
    (hstep : ∀ s a t, I s → step s a = some t → I t)
    {s t : σ} {as : List α} (hs : I s) (h : run step s as = some t) : I t := by
  induction as generalizing s with
  | nil => cases h; exact hs
  | cons a as ih =>
    obtain ⟨u, hu, h⟩ := run_cons_eq_some.mp h
    exact ih (hstep s a u hs hu) h

/-- What every step that meets a condition keeps, every run of such steps keeps. -/
theorem run_invariant_of_meets {I : σ → Prop} {cond : σ → α → Prop}
    (hstep : ∀ s a t, I s → cond s a → step s a = some t → I t)
    {s t : σ} {as : List α} (hs : I s) (hc : Meets step cond s as)
    (h : run step s as = some t) : I t := by
  induction as generalizing s with
  | nil => cases h; exact hs
  | cons a as ih =>
    obtain ⟨u, hu, h⟩ := run_cons_eq_some.mp h
    exact ih (hstep s a u hs hc.1 hu) (hc.2 u hu) h

/-- A count that grows at the steps that break a condition and is kept by the others tells whether
all steps of a run met it. -/
theorem run_count_eq_iff_meets {I : σ → Prop} {cond : σ → α → Prop} {count : σ → Nat}
    (hinv : ∀ s a t, I s → step s a = some t → I t)
    (hgrows : ∀ s a t, I s → step s a = some t → count s ≤ count t)
    (hkeeps : ∀ s a t, I s → step s a = some t → (count t = count s ↔ cond s a))
    {s t : σ} {as : List α} (hs : I s) (h : run step s as = some t) :
    count s ≤ count t ∧ (count t = count s ↔ Meets step cond s as) := by
  induction as generalizing s with
  | nil =>
    cases h
    simp [Meets]
  | cons a as ih =>
    obtain ⟨u, hu, h⟩ := run_cons_eq_some.mp h
    have hfirst := hgrows s a u hs hu
    obtain ⟨hrest, hmeets⟩ := ih (hinv s a u hs hu) h
    refine ⟨hfirst.trans hrest, ?_⟩
    simp only [Meets, hu, Option.some.injEq, forall_eq', ← hmeets, ← hkeeps s a u hs hu]
    omega

/-- An invariant that may speak of the actions that led to the state. -/
theorem run_history {I : List α → σ → Prop} {cond : σ → α → Prop} {s t : σ} {as : List α}
    (hstep : ∀ bs r a r', run step s bs = some r → I bs r → cond r a → step r a = some r' →
      I (bs ++ [a]) r')
    (hs : I [] s) (hc : Meets step cond s as) (h : run step s as = some t) : I as t := by
  suffices ∀ (bs : List α) (r : σ), run step s bs = some r → I bs r → Meets step cond r as →
      run step r as = some t → I (bs ++ as) t from this [] s rfl hs hc h
  clear hs hc h
  induction as with
  | nil =>
    intro bs r _ hi _ h
    cases h
    simpa using hi
  | cons a as ih =>
    intro bs r hr hi hc h
    obtain ⟨u, hu, h⟩ := run_cons_eq_some.mp h
    have hbs : run step s (bs ++ [a]) = some u := by simp [run_append, hr, run, hu]
    have := ih (bs ++ [a]) u hbs (hstep bs r a u hr hi hc.1 hu) (hc.2 u hu) h
    simpa using this

/-- A run of steps that each consume a measure is no longer than the measure at its start. -/
theorem length_add_measure_le {μ : σ → Nat} {inv : σ → Prop} {cond : σ → α → Prop}
    (hinv : ∀ s a t, inv s → step s a = some t → inv t)
    (hstep : ∀ s a t, inv s → cond s a → step s a = some t → μ t < μ s)
    {s t : σ} {as : List α} (hs : inv s) (hc : Meets step cond s as)
    (h : run step s as = some t) : as.length + μ t ≤ μ s := by
  induction as generalizing s with
  | nil => cases h; simp
  | cons a as ih =>
    obtain ⟨u, hu, h⟩ := run_cons_eq_some.mp h
    have := ih (hinv s a u hs hu) (hc.2 u hu) h
    have := hstep s a u hs hc.1 hu
    simp only [List.length_cons]
    omega

/-- Where some step consumes a measure as long as the goal is not reached, the goal is reached. -/
theorem exists_run_of_measure {μ : σ → Nat} {inv goal : σ → Prop}
    (hinv : ∀ s a t, inv s → step s a = some t → inv t)
    (hprogress : ∀ s, inv s → ¬ goal s → ∃ a t, step s a = some t ∧ μ t < μ s)
    (s : σ) (hs : inv s) : ∃ as t, run step s as = some t ∧ goal t := by
  induction hk : μ s using Nat.strongRecOn generalizing s with
  | ind k ih =>
    by_cases hg : goal s
    · exact ⟨[], s, rfl, hg⟩
    · obtain ⟨a, t, hstep, hlt⟩ := hprogress s hs hg
      obtain ⟨as, u, hrun, hu⟩ := ih (μ t) (hk ▸ hlt) t (hinv s a t hs hstep) rfl
      exact ⟨a :: as, u, run_cons_eq_some.mpr ⟨t, hstep, hrun⟩, hu⟩

end Transition
