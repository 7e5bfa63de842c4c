import Mathlib

/-!
# Groups cut into fragments

A list of groups, each with a list of items, is sent in messages of bounded
size. A message carries fragments: the items of a group from where the previous
fragment of the group ended. The first fragment of a group may be without
items; a later one carries at least one, so that every fragment is progress.

A sender is given by its calls, each of which returns a message and where to go
on. The rule at the end says that calls which emit something each time end, and
what their messages carry together.
-/

namespace Fragments

variable {γ ι σ μ : Type*}

structure Fragment (γ ι : Type*) where
  group : γ
  /-- No fragment of the group was sent before. -/
  first : Bool
  items : List ι

/-- What is left to send; the first group may have been started. -/
structure Cursor (γ ι : Type*) where
  started : Bool
  rest : List (γ × List ι)

inductive Step : Cursor γ ι → Fragment γ ι → Cursor γ ι → Prop where
  | part {started : Bool} {g : γ} {xs ys : List ι} {rest : List (γ × List ι)}
      (h : started = true → xs ≠ []) :
      Step ⟨started, (g, xs ++ ys) :: rest⟩ ⟨g, !started, xs⟩ ⟨true, (g, ys) :: rest⟩
  | finish {started : Bool} {g : γ} {xs : List ι} {rest : List (γ × List ι)}
      (h : started = true → xs ≠ []) :
      Step ⟨started, (g, xs) :: rest⟩ ⟨g, !started, xs⟩ ⟨false, rest⟩

inductive Emits : Cursor γ ι → List (Fragment γ ι) → Cursor γ ι → Prop where
  | nil (c : Cursor γ ι) : Emits c [] c
  | cons {c c' c'' : Cursor γ ι} {f : Fragment γ ι} {fs : List (Fragment γ ι)}
      (h : Step c f c') (rest : Emits c' fs c'') : Emits c (f :: fs) c''

theorem Emits.append {c c' c'' : Cursor γ ι} {fs gs : List (Fragment γ ι)} (h : Emits c fs c')
    (h' : Emits c' gs c'') : Emits c (fs ++ gs) c'' := by
  induction h with
  | nil => exact h'
  | cons hstep _ ih => exact .cons hstep (ih h')

theorem Emits.single {c c' : Cursor γ ι} {f : Fragment γ ι} (h : Step c f c') : Emits c [f] c' :=
  .cons h (.nil _)

/-- A bound on the number of fragments to come. -/
def Cursor.weight (c : Cursor γ ι) : ℕ :=
  (c.rest.map fun g => g.2.length + 2).sum - if c.started then 1 else 0

theorem Step.weight_lt {c c' : Cursor γ ι} {f : Fragment γ ι} (h : Step c f c') :
    c'.weight < c.weight := by
  cases h with
  | @part started g xs ys rest h =>
    cases started with
    | false => simp [Cursor.weight]
    | true =>
      have := List.length_pos_of_ne_nil (h rfl)
      simp [Cursor.weight]
      omega
  | @finish started g xs rest h =>
    cases started <;> simp [Cursor.weight]

theorem Emits.weight_le {c c' : Cursor γ ι} {fs : List (Fragment γ ι)} (h : Emits c fs c') :
    c'.weight + fs.length ≤ c.weight := by
  induction h with
  | nil => simp
  | cons hstep _ ih =>
    have := hstep.weight_lt
    simp only [List.length_cons]
    omega

/-- The messages of a sender: the `i`th call returns one, where to go on, and whether it is the
last. `none` when a call fails or the calls do not end in time. -/
def collect (call : ℕ → σ → Option (μ × σ × Bool)) : ℕ → ℕ → σ → Option (List μ)
  | 0, _, _ => none
  | fuel + 1, i, s =>
      match call i s with
      | none => none
      | some (m, _, true) => some [m]
      | some (m, s', false) => (collect call fuel (i + 1) s').map (m :: ·)

theorem collect_eq_some {call : ℕ → σ → Option (μ × σ × Bool)} {fuel i : ℕ} {s : σ} {ms : List μ}
    (h : collect call fuel i s = some ms) :
    ∃ m rest s' done, ms = m :: rest ∧ call i s = some (m, s', done) := by
  cases fuel with
  | zero => cases h
  | succ fuel =>
    rw [collect] at h
    split at h
    · cases h
    · next m s' hm => exact ⟨m, [], s', true, (Option.some.inj h).symm, hm⟩
    · next m s' hm =>
      obtain ⟨rest, -, rfl⟩ := Option.map_eq_some_iff.mp h
      exact ⟨m, rest, s', false, rfl, hm⟩

/-- Calls that each send something until nothing is left end, and send everything. -/
theorem collect_emits {call : ℕ → σ → Option (μ × σ × Bool)} {I : σ → Prop}
    {cursor : σ → Cursor γ ι} {R : μ → List (Fragment γ ι) → Prop}
    (hcall : ∀ i s, I s → ∃ m s' done fs, call i s = some (m, s', done) ∧ R m fs ∧
      (done = true → Emits (cursor s) fs ⟨false, []⟩) ∧
      (done = false → I s' ∧ fs ≠ [] ∧ Emits (cursor s) fs (cursor s')))
    (i : ℕ) {s : σ} (hs : I s) {fuel : ℕ} (hfuel : (cursor s).weight < fuel) :
    ∃ ms fss, collect call fuel i s = some ms ∧ List.Forall₂ R ms fss ∧
      Emits (cursor s) fss.flatten ⟨false, []⟩ := by
  induction fuel generalizing i s with
  | zero => omega
  | succ fuel ih =>
    obtain ⟨m, s', done, fs, hm, hR, hlast, hnext⟩ := hcall i s hs
    cases done with
    | true =>
      refine ⟨[m], [fs], by simp [collect, hm], .cons hR .nil, ?_⟩
      simpa using hlast rfl
    | false =>
      obtain ⟨hs', hne, hemits⟩ := hnext rfl
      have hless : (cursor s').weight < fuel := by
        have := hemits.weight_le
        have := List.length_pos_of_ne_nil hne
        omega
      obtain ⟨ms, fss, hms, hall, hrest⟩ := ih (i + 1) hs' hless
      refine ⟨m :: ms, fs :: fss, by simp [collect, hm, hms], .cons hR hall, ?_⟩
      simpa using hemits.append hrest

/-! ## All fragments together -/

/-- The fragments of a group after the first. -/
inductive Continues (g : γ) : List ι → List (Fragment γ ι) → Prop where
  | nil : Continues g [] []
  | cons {xs ys : List ι} {fs : List (Fragment γ ι)} (h : xs ≠ []) (rest : Continues g ys fs) :
      Continues g (xs ++ ys) (⟨g, false, xs⟩ :: fs)

/-- The fragments carry each group once, in order, and its items once, in order. -/
inductive Covers : List (γ × List ι) → List (Fragment γ ι) → Prop where
  | nil : Covers [] []
  | cons {g : γ} {xs ys : List ι} {gs : List (γ × List ι)} {fs fs' : List (Fragment γ ι)}
      (h : Continues g ys fs) (rest : Covers gs fs') :
      Covers ((g, xs ++ ys) :: gs) (⟨g, true, xs⟩ :: (fs ++ fs'))

theorem Emits.covers_or_continues {c c' : Cursor γ ι} {fs : List (Fragment γ ι)}
    (h : Emits c fs c') (hend : c' = ⟨false, []⟩) :
    (c.started = false ∧ Covers c.rest fs) ∨
      (c.started = true ∧ ∃ g ys gs fs₁ fs₂, c.rest = (g, ys) :: gs ∧ fs = fs₁ ++ fs₂ ∧
        Continues g ys fs₁ ∧ Covers gs fs₂) := by
  induction h with
  | nil c =>
    subst hend
    exact .inl ⟨rfl, .nil⟩
  | @cons c _ _ f fs hstep _ ih =>
    cases hstep with
    | @part started g xs ys rest hne =>
      obtain ⟨⟨⟩, -⟩ | ⟨-, g', ys', gs, fs₁, fs₂, hrest, rfl, hcont, hcov⟩ := ih hend
      obtain ⟨⟨rfl, rfl⟩, rfl⟩ := (List.cons.inj hrest).imp_left Prod.mk.inj
      cases started with
      | false => exact .inl ⟨rfl, .cons hcont hcov⟩
      | true => exact .inr ⟨rfl, g, _, rest, _, fs₂, rfl, rfl, .cons (hne rfl) hcont, hcov⟩
    | @finish started g xs rest hne =>
      obtain ⟨-, hcov⟩ | ⟨⟨⟩, -⟩ := ih hend
      cases started with
      | false =>
        have hfirst : Covers ((g, xs ++ []) :: rest) (⟨g, true, xs⟩ :: ([] ++ fs)) :=
          .cons .nil hcov
        exact .inl ⟨rfl, by simpa using hfirst⟩
      | true =>
        have hlast : Continues g (xs ++ []) [⟨g, false, xs⟩] := .cons (hne rfl) .nil
        exact .inr ⟨rfl, g, xs, rest, _, fs, rfl, rfl, by simpa using hlast, hcov⟩

theorem Emits.covers {gs : List (γ × List ι)} {fs : List (Fragment γ ι)}
    (h : Emits ⟨false, gs⟩ fs ⟨false, []⟩) : Covers gs fs := by
  obtain ⟨-, hcov⟩ | ⟨⟨⟩, -⟩ := h.covers_or_continues rfl
  exact hcov

theorem Continues.mem {g : γ} {ys : List ι} {fs : List (Fragment γ ι)} (h : Continues g ys fs)
    {f : Fragment γ ι} (hf : f ∈ fs) : f.group = g ∧ f.items ⊆ ys := by
  induction h with
  | nil => cases hf
  | @cons xs ys fs _ _ ih =>
    rcases List.mem_cons.mp hf with rfl | hf
    · exact ⟨rfl, List.subset_append_left xs ys⟩
    · exact ⟨(ih hf).1, fun i hi => List.mem_append_right xs ((ih hf).2 hi)⟩

/-- A fragment is of one of the groups, and its items are of the group. -/
theorem Covers.mem {gs : List (γ × List ι)} {fs : List (Fragment γ ι)} (h : Covers gs fs)
    {f : Fragment γ ι} (hf : f ∈ fs) : ∃ g ∈ gs, f.group = g.1 ∧ f.items ⊆ g.2 := by
  induction h with
  | nil => cases hf
  | @cons g xs ys gs fs fs' hcont _ ih =>
    rcases List.mem_cons.mp hf with rfl | hf
    · exact ⟨_, List.mem_cons_self, rfl, List.subset_append_left xs ys⟩
    rcases List.mem_append.mp hf with hf | hf
    · obtain ⟨hgroup, hsub⟩ := hcont.mem hf
      exact ⟨_, List.mem_cons_self, hgroup, fun i hi => List.mem_append_right xs (hsub hi)⟩
    · obtain ⟨g', hg', hmem⟩ := ih hf
      exact ⟨g', List.mem_cons_of_mem _ hg', hmem⟩

section Fold

variable {ε τ : Type} {step : τ → Fragment γ ι → Except ε τ} {I : τ → Prop}

theorem Continues.foldlM_eq
    (hmerge : ∀ {t} g xs ys, I t → (step t ⟨g, true, xs⟩ >>= fun t => step t ⟨g, false, ys⟩) =
      step t ⟨g, true, xs ++ ys⟩)
    {g : γ} {ys : List ι} {fs : List (Fragment γ ι)} (h : Continues g ys fs) {t : τ} (ht : I t)
    (xs : List ι) :
    (step t ⟨g, true, xs⟩ >>= fun t => fs.foldlM step t) = step t ⟨g, true, xs ++ ys⟩ := by
  induction h generalizing xs with
  | nil => simp
  | @cons zs ys fs _ _ ih =>
    rw [← List.append_assoc, ← ih (xs ++ zs), ← hmerge g xs zs ht, bind_assoc]
    rfl

/-- A receiver for which a group in two fragments is as good as in one ends where it ends when every
group comes in one. -/
theorem Covers.foldlM_eq (hI : ∀ {t f t'}, I t → step t f = .ok t' → I t')
    (hmerge : ∀ {t} g xs ys, I t → (step t ⟨g, true, xs⟩ >>= fun t => step t ⟨g, false, ys⟩) =
      step t ⟨g, true, xs ++ ys⟩)
    {gs : List (γ × List ι)} {fs : List (Fragment γ ι)} (h : Covers gs fs) {t : τ} (ht : I t) :
    fs.foldlM step t = gs.foldlM (fun t g => step t ⟨g.1, true, g.2⟩) t := by
  induction h generalizing t with
  | nil => rfl
  | @cons g xs ys gs fs fs' hcont _ ih =>
    have hsplit : (step t ⟨g, true, xs⟩ >>= fun t => (fs ++ fs').foldlM step t) =
        step t ⟨g, true, xs ++ ys⟩ >>= fun t => fs'.foldlM step t := by
      rw [← hcont.foldlM_eq hmerge ht xs, bind_assoc]
      simp only [List.foldlM_append]
    rw [List.foldlM_cons, List.foldlM_cons, hsplit]
    cases hwhole : step t ⟨g, true, xs ++ ys⟩ with
    | error e => rfl
    | ok t' => exact ih (hI ht hwhole)

end Fold

end Fragments
