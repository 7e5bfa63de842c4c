import Mathlib

/-!
# Registers that keep the latest write

A write carries a rank. It takes effect unless its rank is below the rank of
the value in the register. What a sequence of writes leaves behind does not
depend on their order, as long as writes of one rank agree.
-/

namespace LatestWrite

variable {α : Type*}

/-- The register and a write are both a rank with a value. -/
def write (r w : Nat × α) : Nat × α := if w.1 < r.1 then r else w

/-- Either no write took effect, or the register holds one of the greatest. -/
theorem foldl_write (r : Nat × α) (ws : List (Nat × α)) :
    (ws.foldl write r = r ∧ ∀ w ∈ ws, w.1 < r.1) ∨
      (ws.foldl write r ∈ ws ∧ r.1 ≤ (ws.foldl write r).1 ∧
        ∀ w ∈ ws, w.1 ≤ (ws.foldl write r).1) := by
  induction ws using List.reverseRecOn with
  | nil => exact .inl ⟨rfl, (fun _ h => by cases h)⟩
  | append_singleton ws w ih =>
    rw [List.foldl_append, List.foldl_cons, List.foldl_nil]
    generalize ws.foldl write r = s at ih ⊢
    by_cases hw : w.1 < s.1
    · simp only [write, if_pos hw, List.mem_append, List.mem_singleton]
      rcases ih with ⟨rfl, hold⟩ | ⟨hmem, hle, hmax⟩
      · exact .inl ⟨rfl, by rintro v (hv | rfl); exacts [hold v hv, hw]⟩
      · exact .inr ⟨.inl hmem, hle, by rintro v (hv | rfl); exacts [hmax v hv, hw.le]⟩
    · simp only [write, if_neg hw, List.mem_append, List.mem_singleton]
      refine .inr ⟨.inr trivial, ?_⟩
      rcases ih with ⟨rfl, hold⟩ | ⟨-, hle, hmax⟩
      · exact ⟨by omega, by rintro v (hv | rfl); exacts [by have := hold v hv; omega, le_rfl]⟩
      · exact ⟨by omega, by rintro v (hv | rfl); exacts [by have := hmax v hv; omega, le_rfl]⟩

theorem foldl_write_of_lt {r : Nat × α} {ws : List (Nat × α)} (h : ∀ w ∈ ws, w.1 < r.1) :
    ws.foldl write r = r := by
  rcases foldl_write r ws with ⟨heq, -⟩ | ⟨hmem, hle, -⟩
  · exact heq
  · exact absurd (h _ hmem) (by omega)

/-- A greatest write that can take effect is what is left. -/
theorem foldl_write_of_max {r w : Nat × α} {ws : List (Nat × α)}
    (agree : ∀ v ∈ ws, ∀ u ∈ ws, v.1 = u.1 → v.2 = u.2) (hw : w ∈ ws) (hle : r.1 ≤ w.1)
    (hmax : ∀ v ∈ ws, v.1 ≤ w.1) : ws.foldl write r = w := by
  rcases foldl_write r ws with ⟨-, hold⟩ | ⟨hmem, -, hgreatest⟩
  · exact absurd (hold w hw) (by omega)
  · have hrank : (ws.foldl write r).1 = w.1 := le_antisymm (hmax _ hmem) (hgreatest w hw)
    exact Prod.ext hrank (agree _ hmem w hw hrank)

/-- Neither order nor repetition matters. -/
theorem foldl_write_congr {r : Nat × α} {ws vs : List (Nat × α)}
    (agree : ∀ v ∈ ws, ∀ u ∈ ws, v.1 = u.1 → v.2 = u.2) (h : ∀ w, w ∈ ws ↔ w ∈ vs) :
    ws.foldl write r = vs.foldl write r := by
  rcases foldl_write r vs with ⟨heq, hold⟩ | ⟨hmem, hle, hmax⟩
  · rw [heq]
    exact foldl_write_of_lt fun w hw => hold w ((h w).mp hw)
  · exact foldl_write_of_max agree ((h _).mpr hmem) hle fun v hv => hmax v ((h v).mp hv)

end LatestWrite
