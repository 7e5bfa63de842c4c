import Mathlib

/-!
# The first element that passes a test

Linked lists are searched from the head, and the first element found is changed
or unlinked in place. `firstMatch` cuts a list at that element; a counter over
the list, its length and its members are then those of an append.
-/

namespace FirstMatch

variable {α : Type*}

/-- The elements in front of the first match, the match, and those behind it. -/
def firstMatch (p : α → Bool) : List α → Option (List α × α × List α)
  | [] => none
  | a :: l =>
      if p a then some ([], a, l)
      else (firstMatch p l).map fun found => (a :: found.1, found.2)

theorem firstMatch_eq_none {p : α → Bool} {l : List α} :
    firstMatch p l = none ↔ ∀ a ∈ l, p a = false := by
  induction l with
  | nil => simp [firstMatch]
  | cons a l ih =>
    rw [firstMatch]
    by_cases ha : p a = true
    · simp [ha]
    · simp [ha, ih]

theorem firstMatch_eq_some {p : α → Bool} {l before behind : List α} {a : α}
    (h : firstMatch p l = some (before, a, behind)) :
    l = before ++ a :: behind ∧ p a = true ∧ ∀ b ∈ before, p b = false := by
  induction l generalizing before with
  | nil => cases h
  | cons c l ih =>
    rw [firstMatch] at h
    split at h
    · rename_i hc
      cases h
      exact ⟨rfl, hc, by simp⟩
    · rename_i hc
      cases hfound : firstMatch p l with
      | none => simp [hfound] at h
      | some found =>
        obtain ⟨before', a', behind'⟩ := found
        rw [hfound] at h
        cases h
        obtain ⟨rfl, ha, hbefore⟩ := ih hfound
        refine ⟨rfl, ha, ?_⟩
        intro b hb
        rcases List.mem_cons.mp hb with rfl | hb
        · exact Bool.eq_false_iff.mpr hc
        · exact hbefore b hb

end FirstMatch
