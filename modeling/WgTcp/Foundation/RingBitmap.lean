import Mathlib

/-!
# A bitmap over a ring of words

A set of numbers is kept in `n` words of `w` bits, word `i` of the numbers in
word `i % n` of the ring. Only the last `n` words up to a top one are kept:
moving the top forward clears the words that it passes, at most all of them.
-/

namespace RingBitmap

variable {n w : Nat} [NeZero n]

/-- The words of the ring. -/
abbrev Words (n w : Nat) := Fin n → BitVec w

/-- The bit that stands for the number `t`. -/
def bit (b : Words n w) (t : Nat) : Bool := (b (Fin.ofNat n (t / w))).getLsbD (t % w)

/-- Clear the `k` words behind word `current`. -/
def clear (b : Words n w) (current : Nat) : Nat → Words n w
  | 0 => b
  | k + 1 => Function.update (clear b current k) (Fin.ofNat n (k + 1 + current)) 0

/-- Set the bit of `t`. -/
def insert (b : Words n w) (t : Nat) : Words n w :=
  Function.update b (Fin.ofNat n (t / w)) (b (Fin.ofNat n (t / w)) ||| BitVec.twoPow w (t % w))

/-- In the last `n` words up to word `top`, exactly the members of `S` are set. -/
def Holds (b : Words n w) (top : Nat) (S : Nat → Prop) : Prop :=
  ∀ t, t / w ≤ top → top < t / w + n → (bit b t = true ↔ S t)

variable {b : Words n w} {top : Nat} {S : Nat → Prop}

theorem ofNat_eq_iff {i j : Nat} : Fin.ofNat n i = Fin.ofNat n j ↔ i % n = j % n := by
  simp [Fin.ext_iff]

/-- Two words of the ring that are less than a turn apart are different. -/
theorem ofNat_ne {i j : Nat} (hlt : i < j) (hturn : j < i + n) :
    Fin.ofNat n i ≠ Fin.ofNat n j := by
  rw [ne_eq, ofNat_eq_iff]
  intro h
  obtain ⟨d, hd⟩ := (Nat.modEq_iff_dvd' hlt.le).mp h
  have hpos : 0 < j - i := by omega
  have hle : n ≤ j - i := Nat.le_of_dvd hpos ⟨d, hd⟩
  omega

theorem clear_of_forall_ne {current k : Nat} {i : Fin n}
    (h : ∀ j, 1 ≤ j → j ≤ k → i ≠ Fin.ofNat n (j + current)) : clear b current k i = b i := by
  induction k with
  | zero => rfl
  | succ k ih =>
    rw [clear, Function.update_of_ne (h (k + 1) (by omega) le_rfl)]
    exact ih fun j hj hk => h j hj (by omega)

theorem clear_of_eq {current k j : Nat} {i : Fin n} (hj : 1 ≤ j) (hk : j ≤ k)
    (h : i = Fin.ofNat n (j + current)) : clear b current k i = 0 := by
  induction k with
  | zero => omega
  | succ k ih =>
    rw [clear]
    by_cases hi : i = Fin.ofNat n (k + 1 + current)
    · rw [hi, Function.update_self]
    · rw [Function.update_of_ne hi]
      refine ih ?_
      by_contra hlast
      obtain rfl : j = k + 1 := by omega
      exact hi h

/-- The words between the old and the new top are cleared, by a whole turn where they are more. -/
theorem clear_passed {current next i : Nat} (hlo : current < i) (hhi : i ≤ next) :
    clear b current (min (next - current) n) (Fin.ofNat n i) = 0 := by
  have hn := NeZero.pos n
  by_cases hturn : i - current ≤ n
  · refine clear_of_eq (j := i - current) (by omega) (by omega) ?_
    congr 1
    omega
  · -- Some word of the turn has the same place in the ring.
    refine clear_of_eq (j := (i - current - 1) % n + 1) (by omega) ?_ ?_
    · have := Nat.mod_lt (i - current - 1) hn
      omega
    · rw [ofNat_eq_iff]
      have hsplit := Nat.div_add_mod (i - current - 1) n
      have : i = (i - current - 1) % n + 1 + current + n * ((i - current - 1) / n) := by omega
      conv_lhs => rw [this]
      rw [Nat.add_mul_mod_self_left]

/-- Moving the top keeps what is held. -/
theorem Holds.advance (h : Holds b top S) (hS : ∀ t, S t → t / w ≤ top) {next : Nat}
    (hnext : top ≤ next) : Holds (clear b top (min (next - top) n)) next S := by
  intro t hle hlt
  by_cases hold : t / w ≤ top
  · have hkept : clear b top (min (next - top) n) (Fin.ofNat n (t / w)) =
        b (Fin.ofNat n (t / w)) :=
      clear_of_forall_ne fun j hj hk => ofNat_ne (by omega) (by omega)
    rw [bit, hkept]
    exact h t hold (by omega)
  · rw [bit, clear_passed (by omega) hle]
    constructor
    · intro hbit
      simp at hbit
    · intro ht
      exact absurd (hS t ht) hold

/-- Setting a bit among the words that are kept adds its number, and no other. -/
theorem Holds.insert (h : Holds b top S) (hw : 0 < w) {t : Nat} (hle : t / w ≤ top)
    (hlt : top < t / w + n) : Holds (insert b t) top fun u => u = t ∨ S u := by
  intro u hule hult
  have hold := h u hule hult
  rw [bit] at hold
  rw [bit, RingBitmap.insert]
  by_cases hword : u / w = t / w
  · have hsame : t % w = u % w ↔ u = t := by
      constructor
      · intro hmod
        rw [← Nat.div_add_mod u w, ← Nat.div_add_mod t w, hword, hmod]
      · rintro rfl
        rfl
    rw [hword] at hold
    rw [hword, Function.update_self, BitVec.getLsbD_or, Bool.or_eq_true, hold,
      BitVec.getLsbD_twoPow]
    simp only [Nat.mod_lt t hw, decide_true, Bool.true_and, decide_eq_true_eq, hsame]
    exact or_comm
  · have hother : Fin.ofNat n (u / w) ≠ Fin.ofNat n (t / w) := by
      rcases Nat.lt_or_gt_of_ne hword with hlt' | hlt'
      · exact ofNat_ne hlt' (by omega)
      · exact (ofNat_ne hlt' (by omega)).symm
    have hne : u ≠ t := by
      rintro rfl
      exact hword rfl
    rw [Function.update_of_ne hother, hold]
    simp [hne]

end RingBitmap
