import WgTcp.Foundation.RingBitmap
import WgTcp.Send.Staging

/-!
# The replay window

`counter_validate` keeps the counters of accepted packets, shifted by one, in a
bitmap of 128 words that is reused as the counters grow. The words between the
old and the new maximum are cleared lazily, at most all of them. All arithmetic
is that of 64-bit words.

`replay_window_exact` says which counters are accepted after any sequence of
calls, and that none of the additions wraps around.
-/

namespace WgTcp

open RingBitmap

/-- `BITS_PER_LONG`, of which `ilog2` is 6, on the machines that the model is about. -/
abbrev bitsPerLong : Nat := 64

theorem counterWindowSize_eq : counterWindowSize = 8128 := rfl

theorem rejectAfterMessages_eq : rejectAfterMessages = 18446744073709543486 := rfl

/-- `COUNTER_BITS_TOTAL / BITS_PER_LONG`. -/
abbrev backtrackWords : Nat := 128

abbrev U64 := BitVec 64

structure NoiseReplayCounter where
  counter : U64
  backtrack : Words backtrackWords bitsPerLong

def NoiseReplayCounter.zeroed : NoiseReplayCounter := ⟨0, fun _ => 0⟩

/-- `& ((COUNTER_BITS_TOTAL / BITS_PER_LONG) - 1)`. -/
def backtrackIndex (index : U64) : Fin backtrackWords :=
  Fin.ofNat backtrackWords (index &&& BitVec.ofNat 64 (backtrackWords - 1)).toNat

/-- The loop that clears the words behind `index_current`. -/
def clearBacktrack (backtrack : Words backtrackWords bitsPerLong) (indexCurrent : U64) :
    Nat → Words backtrackWords bitsPerLong
  | 0 => backtrack
  | i + 1 =>
      Function.update (clearBacktrack backtrack indexCurrent i)
        (backtrackIndex (BitVec.ofNat 64 (i + 1) + indexCurrent)) 0

/-- The section of `counter_validate` under the counter's lock. -/
def counterValidate (c : NoiseReplayCounter) (theirCounter : U64) : Bool × NoiseReplayCounter :=
  if BitVec.ofNat 64 rejectAfterMessages + 1 ≤ c.counter ∨
      BitVec.ofNat 64 rejectAfterMessages ≤ theirCounter then
    (false, c)
  else
    let theirCounter := theirCounter + 1
    if BitVec.ofNat 64 counterWindowSize + theirCounter < c.counter then (false, c)
    else
      let index := theirCounter >>> 6
      let c :=
        if c.counter < theirCounter then
          let indexCurrent := c.counter >>> 6
          let top := min (index - indexCurrent).toNat backtrackWords
          ⟨theirCounter, clearBacktrack c.backtrack indexCurrent top⟩
        else c
      let word := backtrackIndex index
      let bit := (theirCounter &&& BitVec.ofNat 64 (bitsPerLong - 1)).toNat
      -- `test_and_set_bit`
      (!(c.backtrack word).getLsbD bit,
        { c with
          backtrack :=
            Function.update c.backtrack word (c.backtrack word ||| BitVec.twoPow 64 bit) })

/-! ## The machine words as numbers -/

theorem and_ofNat_toNat (x : U64) {k : Nat} (hk : k ≤ 64) :
    (x &&& BitVec.ofNat 64 (2 ^ k - 1)).toNat = x.toNat % 2 ^ k := by
  have hlt : 2 ^ k - 1 < 2 ^ 64 := by
    have := Nat.pow_le_pow_right (by decide : 0 < 2) hk
    have := Nat.two_pow_pos k
    omega
  rw [BitVec.toNat_and, BitVec.toNat_ofNat, Nat.mod_eq_of_lt hlt, Nat.and_two_pow_sub_one_eq_mod]

theorem backtrackIndex_eq (x : U64) : backtrackIndex x = Fin.ofNat 128 x.toNat := by
  rw [backtrackIndex, ofNat_eq_iff, show (128 : Nat) - 1 = 2 ^ 7 - 1 from rfl,
    and_ofNat_toNat x (by decide)]
  exact Nat.mod_mod _ _

theorem shiftRight_toNat (x : U64) : (x >>> 6).toNat = x.toNat / 64 := by
  rw [BitVec.toNat_ushiftRight, Nat.shiftRight_eq_div_pow]

theorem add_one_toNat {x : U64} (h : x.toNat + 1 < 2 ^ 64) : (x + 1).toNat = x.toNat + 1 := by
  rw [BitVec.toNat_add]
  exact Nat.mod_eq_of_lt h

theorem clearBacktrack_eq (backtrack : Words 128 64) (current : U64) {k : Nat}
    (hk : k + current.toNat < 2 ^ 64) :
    clearBacktrack backtrack current k = clear backtrack current.toNat k := by
  induction k with
  | zero => rfl
  | succ k ih =>
    have hsum : (BitVec.ofNat 64 (k + 1) + current).toNat = k + 1 + current.toNat := by
      rw [BitVec.toNat_add, BitVec.toNat_ofNat]
      omega
    rw [clearBacktrack, RingBitmap.clear, ih (by omega), backtrackIndex_eq, hsum]

/-- The bitmap once its top covers `t`. -/
def NoiseReplayCounter.advanced (c : NoiseReplayCounter) (t : Nat) : Words 128 64 :=
  if c.counter.toNat < t then
    RingBitmap.clear c.backtrack (c.counter.toNat / 64) (min (t / 64 - c.counter.toNat / 64) 128)
  else c.backtrack

/-- The call without machine words, for a counter that has not been exhausted. -/
theorem counterValidate_eq {c : NoiseReplayCounter} {their : U64}
    (hc : c.counter.toNat ≤ rejectAfterMessages) :
    counterValidate c their =
      if rejectAfterMessages ≤ their.toNat then (false, c)
      else if counterWindowSize + (their.toNat + 1) < c.counter.toNat then (false, c)
      else
        (!RingBitmap.bit (c.advanced (their.toNat + 1)) (their.toNat + 1),
          ⟨if c.counter.toNat < their.toNat + 1 then their + 1 else c.counter,
            RingBitmap.insert (c.advanced (their.toNat + 1)) (their.toNat + 1)⟩) := by
  have hlimit : (BitVec.ofNat 64 rejectAfterMessages).toNat = rejectAfterMessages := rfl
  have hvalue := rejectAfterMessages_eq
  have hexhausted : ¬ BitVec.ofNat 64 rejectAfterMessages + 1 ≤ c.counter := by
    rw [BitVec.le_def, add_one_toNat (by rw [hlimit]; omega), hlimit]
    omega
  unfold counterValidate
  by_cases hreject : rejectAfterMessages ≤ their.toNat
  · rw [if_pos hreject, if_pos]
    exact .inr (by rwa [BitVec.le_def, hlimit])
  have hnext : (their + 1).toNat = their.toNat + 1 := add_one_toNat (by omega)
  have hold : BitVec.ofNat 64 counterWindowSize + (their + 1) < c.counter ↔
      counterWindowSize + (their.toNat + 1) < c.counter.toNat := by
    rw [BitVec.lt_def, BitVec.toNat_add, hnext, BitVec.toNat_ofNat, counterWindowSize_eq,
      Nat.mod_eq_of_lt (by omega)]
  have hgrows : c.counter < their + 1 ↔ c.counter.toNat < their.toNat + 1 := by
    rw [BitVec.lt_def, hnext]
  have hbit : (their + 1 &&& BitVec.ofNat 64 (64 - 1)).toNat = (their.toNat + 1) % 64 := by
    rw [show (64 : Nat) - 1 = 2 ^ 6 - 1 from rfl, and_ofNat_toNat _ (by decide), hnext]
    rfl
  rw [if_neg hreject, if_neg (by simp only [not_or, hexhausted, BitVec.le_def, hlimit]; tauto)]
  simp only [hold, hgrows, hbit, backtrackIndex_eq, shiftRight_toNat, hnext,
    NoiseReplayCounter.advanced]
  split
  · rfl
  split
  · rename_i h
    have hle : c.counter.toNat / 64 ≤ (their.toNat + 1) / 64 := Nat.div_le_div_right h.le
    have hdiff : ((their + 1) >>> 6 - c.counter >>> 6).toNat =
        (their.toNat + 1) / 64 - c.counter.toNat / 64 := by
      rw [BitVec.toNat_sub_of_le, shiftRight_toNat, shiftRight_toNat, hnext]
      rwa [BitVec.le_def, shiftRight_toNat, shiftRight_toNat, hnext]
    rw [hdiff, clearBacktrack_eq _ _ (by rw [shiftRight_toNat]; omega), shiftRight_toNat]
    rfl
  · rfl

/-! ## Sequences of counters -/

/-- Feed one counter, and note it if it is accepted. -/
def feedOne (s : NoiseReplayCounter × List U64) (their : U64) : NoiseReplayCounter × List U64 :=
  let verdict := counterValidate s.1 their
  (verdict.2, if verdict.1 then their :: s.2 else s.2)

/-- The state after a sequence of counters, and the accepted ones. -/
def feed (counters : List U64) : NoiseReplayCounter × List U64 :=
  counters.foldl feedOne (.zeroed, [])

/-- The largest of the accepted counters, zero if there is none. -/
def largest (accepted : List U64) : Nat := (accepted.map BitVec.toNat).foldr max 0

/-- The accepted counters as the bitmap holds them. -/
def Marked (accepted : List U64) (t : Nat) : Prop := ∃ a ∈ accepted, a.toNat + 1 = t

structure ReplayInv (c : NoiseReplayCounter) (accepted : List U64) : Prop where
  counter : c.counter.toNat = if accepted = [] then 0 else largest accepted + 1
  below : ∀ a ∈ accepted, a.toNat < rejectAfterMessages
  nodup : accepted.Nodup
  bits : Holds c.backtrack (c.counter.toNat / 64) (Marked accepted)

theorem le_largest {accepted : List U64} {a : U64} (h : a ∈ accepted) :
    a.toNat ≤ largest accepted := by
  induction accepted with
  | nil => cases h
  | cons b rest ih =>
    simp only [largest, List.map_cons, List.foldr_cons] at ih ⊢
    rcases List.mem_cons.mp h with rfl | h
    · exact le_max_left _ _
    · exact (ih h).trans (le_max_right _ _)

theorem largest_mem {accepted : List U64} (h : accepted ≠ []) :
    ∃ a ∈ accepted, a.toNat = largest accepted := by
  induction accepted with
  | nil => exact absurd rfl h
  | cons b rest ih =>
    simp only [largest, List.map_cons, List.foldr_cons]
    by_cases hrest : rest = []
    · exact ⟨b, by simp, by simp [hrest]⟩
    · obtain ⟨a, ha, heq⟩ := ih hrest
      rcases le_total (largest rest) b.toNat with hle | hle
      · exact ⟨b, by simp, (max_eq_left hle).symm⟩
      · exact ⟨a, by simp [ha], heq.trans (max_eq_right hle).symm⟩

theorem ReplayInv.marked_le {c : NoiseReplayCounter} {accepted : List U64}
    (hi : ReplayInv c accepted) {t : Nat} (ht : Marked accepted t) : t ≤ c.counter.toNat := by
  obtain ⟨a, ha, rfl⟩ := ht
  rw [hi.counter, if_neg (List.ne_nil_of_mem ha)]
  exact Nat.succ_le_succ (le_largest ha)

theorem ReplayInv.counter_le {c : NoiseReplayCounter} {accepted : List U64}
    (hi : ReplayInv c accepted) : c.counter.toNat ≤ rejectAfterMessages := by
  rw [hi.counter]
  split
  · exact Nat.zero_le _
  · rename_i hne
    obtain ⟨a, ha, heq⟩ := largest_mem hne
    have := hi.below a ha
    omega

theorem replayInv_zeroed : ReplayInv .zeroed [] where
  counter := rfl
  below := (fun _ h => by cases h)
  nodup := List.nodup_nil
  bits := by
    intro t _ _
    simp [RingBitmap.bit, NoiseReplayCounter.zeroed, Marked]

theorem largest_cons (a : U64) (accepted : List U64) :
    largest (a :: accepted) = max a.toNat (largest accepted) := rfl

theorem marked_cons {a : U64} {accepted : List U64} {t : Nat} :
    Marked (a :: accepted) t ↔ t = a.toNat + 1 ∨ Marked accepted t := by
  simp [Marked, eq_comm]

/-- A counter is within the window, as the code checks it and as it is meant. -/
theorem ReplayInv.window_iff {c : NoiseReplayCounter} {accepted : List U64}
    (hi : ReplayInv c accepted) (n : Nat) :
    ¬ counterWindowSize + (n + 1) < c.counter.toNat ↔
      accepted = [] ∨ largest accepted ≤ n + counterWindowSize := by
  rw [hi.counter]
  split
  · simp [*]
  · simp only [*, false_or]
    omega

theorem ReplayInv.advanced {c : NoiseReplayCounter} {accepted : List U64}
    (hi : ReplayInv c accepted) (t : Nat) :
    Holds (c.advanced t) (max c.counter.toNat t / 64) (Marked accepted) := by
  unfold NoiseReplayCounter.advanced
  split
  · rename_i hgrows
    rw [max_eq_right hgrows.le]
    exact hi.bits.advance (fun u hu => Nat.div_le_div_right (hi.marked_le hu))
      (Nat.div_le_div_right hgrows.le)
  · rename_i hgrows
    rw [max_eq_left (by omega)]
    exact hi.bits

/-- One call: what it answers, and that the state stays what it stands for. -/
theorem feedOne_spec {c : NoiseReplayCounter} {accepted : List U64} (hi : ReplayInv c accepted)
    (their : U64) :
    ((counterValidate c their).1 = true ↔ their.toNat < rejectAfterMessages ∧ their ∉ accepted ∧
      (accepted = [] ∨ largest accepted ≤ their.toNat + counterWindowSize)) ∧
    ReplayInv (feedOne (c, accepted) their).1 (feedOne (c, accepted) their).2 := by
  have hcounter := hi.counter_le
  have hlimit := rejectAfterMessages_eq
  have hwidth := counterWindowSize_eq
  simp only [feedOne]
  rw [counterValidate_eq hcounter]
  by_cases hreject : rejectAfterMessages ≤ their.toNat
  · rw [if_pos hreject]
    refine ⟨?_, hi⟩
    constructor
    · intro h
      cases h
    · rintro ⟨h, -⟩
      omega
  by_cases hold : counterWindowSize + (their.toNat + 1) < c.counter.toNat
  · rw [if_neg hreject, if_pos hold]
    refine ⟨?_, hi⟩
    constructor
    · intro h
      cases h
    · rintro ⟨-, -, h⟩
      exact absurd hold ((hi.window_iff _).mpr h)
  rw [if_neg hreject, if_neg hold]
  have hwindow := (hi.window_iff _).mp hold
  obtain ⟨top, htop⟩ : ∃ top, top = max c.counter.toNat (their.toNat + 1) := ⟨_, rfl⟩
  have hholds := hi.advanced (their.toNat + 1)
  rw [← htop] at hholds
  generalize c.advanced (their.toNat + 1) = b at hholds ⊢
  have hle : (their.toNat + 1) / 64 ≤ top / 64 :=
    Nat.div_le_div_right (htop ▸ le_max_right _ _)
  have hlt : top / 64 < (their.toNat + 1) / 64 + 128 := by
    rcases le_total c.counter.toNat (their.toNat + 1) with h | h
    · rw [htop, max_eq_right h]
      omega
    · rw [htop, max_eq_left h]
      omega
  have hbit := hholds (their.toNat + 1) hle hlt
  have hmarked : Marked accepted (their.toNat + 1) ↔ their ∈ accepted := by
    constructor
    · rintro ⟨a, ha, heq⟩
      rwa [← BitVec.eq_of_toNat_eq (Nat.succ.inj heq)]
    · exact fun h => ⟨their, h, rfl⟩
  rw [hmarked] at hbit
  have hverdict : (!RingBitmap.bit b (their.toNat + 1)) = true ↔ their ∉ accepted := by
    rw [← hbit]
    simp
  refine ⟨?_, ?_⟩
  · rw [hverdict]
    exact ⟨fun h => ⟨by omega, h, hwindow⟩, fun h => h.2.1⟩
  · have hnext : (their + 1).toNat = their.toNat + 1 := add_one_toNat (by omega)
    have hnewCounter : (if c.counter.toNat < their.toNat + 1 then their + 1
        else c.counter).toNat = top := by
      rw [htop]
      split
      · rename_i h
        rw [hnext, max_eq_right h.le]
      · rename_i h
        rw [max_eq_left (by omega)]
    have hinsert := hholds.insert (by decide) hle hlt
    by_cases hnew : their ∈ accepted
    · -- A counter that was accepted before is below the top and already marked.
      have hno : (!RingBitmap.bit b (their.toNat + 1)) = false := by
        simpa using hbit.mpr hnew
      have hseen : top = c.counter.toNat :=
        htop.trans (max_eq_left (hi.marked_le (hmarked.mpr hnew)))
      rw [hno]
      refine ⟨?_, hi.below, hi.nodup, ?_⟩
      · rw [hnewCounter, hseen]
        exact hi.counter
      · rw [hnewCounter]
        intro t ht ht'
        rw [hinsert t ht ht']
        exact or_iff_right_of_imp fun h => h ▸ hmarked.mpr hnew
    · rw [hverdict.mpr hnew]
      refine ⟨?_, ?_, ?_, ?_⟩
      · rw [hnewCounter, htop, hi.counter]
        simp only [if_true, reduceCtorEq, if_false, largest_cons]
        split
        · simp [*, largest]
        · omega
      · intro a ha
        rcases List.mem_cons.mp ha with rfl | ha
        · omega
        · exact hi.below a ha
      · exact List.nodup_cons.mpr ⟨hnew, hi.nodup⟩
      · rw [hnewCounter]
        intro t ht ht'
        rw [hinsert t ht ht']
        exact marked_cons.symm

theorem feed_inv (counters : List U64) : ReplayInv (feed counters).1 (feed counters).2 := by
  induction counters using List.reverseRecOn with
  | nil => exact replayInv_zeroed
  | append_singleton counters their ih =>
    rw [feed, List.foldl_append]
    exact (feedOne_spec ih their).2

/-- After any sequence of counters, the next one is accepted exactly if it is below the limit, was
not accepted before and is not older than the window; no addition of the call leaves 64 bits. -/
theorem replay_window_exact (counters : List U64) (their : U64) :
    ((counterValidate (feed counters).1 their).1 = true ↔
      their.toNat < rejectAfterMessages ∧ their ∉ (feed counters).2 ∧
        ((feed counters).2 = [] ∨
          largest (feed counters).2 ≤ their.toNat + counterWindowSize)) ∧
    (feed counters).2.Nodup ∧
    (rejectAfterMessages + 1 < 2 ^ 64 ∧
      (their.toNat < rejectAfterMessages → their.toNat + 1 < 2 ^ 64 ∧
        counterWindowSize + (their.toNat + 1) < 2 ^ 64) ∧
      128 + (feed counters).1.counter.toNat / 64 < 2 ^ 64) := by
  have hi := feed_inv counters
  have hcounter := hi.counter_le
  have hlimit := rejectAfterMessages_eq
  have hwidth := counterWindowSize_eq
  exact ⟨(feedOne_spec hi their).1, hi.nodup, by omega, fun h => by omega, by omega⟩

end WgTcp
