import Mathlib

/-!
# Commands that fail half way

A command reads and writes a state and may fail; what it wrote before stays.
Besides the equations of execution there are rules for pre- and postconditions,
with a condition for the state that a failure leaves.
-/

/-- A command with results `α`, errors `ε` and the state `σ`. -/
abbrev Command (ε σ α : Type) := ExceptT ε (StateM σ) α

namespace Command

variable {ε σ α β : Type}

def exec (c : Command ε σ α) (s : σ) : Except ε α × σ := (ExceptT.run c).run s

theorem exec_get (s : σ) : exec (get : Command ε σ σ) s = (.ok s, s) := rfl

theorem exec_bind (c : Command ε σ α) (f : α → Command ε σ β) (s : σ) :
    exec (c >>= f) s =
      match exec c s with
      | (.ok a, s') => exec (f a) s'
      | (.error e, s') => (.error e, s') := by
  simp only [exec, ExceptT.run_bind, StateT.run_bind]
  rcases h : (ExceptT.run c).run s with ⟨_ | a, s'⟩ <;> rfl

/-- From a state with the precondition, a result satisfies the postcondition, and the state of a
failure the other one. -/
def Holds (pre : σ → Prop) (c : Command ε σ α) (post : α → σ → Prop) (fail : σ → Prop) : Prop :=
  ∀ s, pre s →
    match exec c s with
    | (.ok a, s') => post a s'
    | (.error _, s') => fail s'

variable {pre fail : σ → Prop} {post : α → σ → Prop} {c : Command ε σ α}

theorem Holds.pure {a : α} (h : ∀ s, pre s → post a s) :
    Holds pre (pure a : Command ε σ α) post fail := h

theorem Holds.throw {e : ε} (h : ∀ s, pre s → fail s) :
    Holds pre (throw e : Command ε σ α) post fail := h

theorem Holds.get {post : σ → σ → Prop} (h : ∀ s, pre s → post s s) :
    Holds pre (get : Command ε σ σ) post fail := h

theorem Holds.modify {f : σ → σ} {post : PUnit → σ → Prop} (h : ∀ s, pre s → post ⟨⟩ (f s)) :
    Holds pre (modify f : Command ε σ PUnit) post fail := h

theorem Holds.bind {f : α → Command ε σ β} {post' : β → σ → Prop} (hc : Holds pre c post fail)
    (hf : ∀ a, Holds (post a) (f a) post' fail) : Holds pre (c >>= f) post' fail := by
  intro s hs
  have h := hc s hs
  rw [exec_bind]
  rcases hexec : exec c s with ⟨_ | a, s'⟩
  · rw [hexec] at h
    exact h
  · rw [hexec] at h
    exact hf a s' h

theorem Holds.consequence {pre' : σ → Prop} {post' : α → σ → Prop} (hc : Holds pre c post fail)
    (hpre : ∀ s, pre' s → pre s) (hpost : ∀ a s, post a s → post' a s) :
    Holds pre' c post' fail := by
  intro s hs
  have h := hc s (hpre s hs)
  rcases hexec : exec c s with ⟨_ | a, s'⟩
  · rw [hexec] at h
    exact h
  · rw [hexec] at h
    exact hpost a s' h

/-- A loop keeps what each of its passes keeps. -/
theorem Holds.forM {l : List α} {f : α → Command ε σ PUnit}
    (h : ∀ a ∈ l, Holds pre (f a) (fun _ => pre) fail) :
    Holds pre (l.forM f) (fun _ => pre) fail := by
  induction l with
  | nil => exact .pure fun _ hs => hs
  | cons a rest ih =>
    exact (h a List.mem_cons_self).bind fun _ => ih fun b hb => h b (List.mem_cons_of_mem _ hb)

end Command
