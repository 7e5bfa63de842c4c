import Mathlib

/-!
# Scanning a symbol stream for self-delimiting records

A format announces the length of a record in a header window of fixed width.
`Format.scan` is the left-to-right decoder: at a position whose window is no
header it moves on by one symbol, at a header it takes the announced number of
symbols, and it stops where the stream ends before the next decision is
possible.

The file relates scanning a stream at once to scanning it in pieces. The
relation `Format.Advances` says that a decoder holding `before` may emit `out`
and hold `after` instead, whatever symbols still follow. It is closed under
composition, so an incremental decoder is correct as soon as each of its steps
advances.
-/

namespace FrameScan

variable {α : Type*}

/-- A record format. `check` is applied to windows of exactly `width` symbols and
returns the length of the record, its header included. -/
structure Format (α : Type*) where
  width : Nat
  check : List α → Option Nat
  width_pos : 0 < width
  width_le : ∀ {window : List α} {n : Nat}, check window = some n → width ≤ n

/-- The records found in a stream and the symbols left undecided at its end. -/
structure Parse (α : Type*) where
  records : List (List α)
  rest : List α
deriving Repr, DecidableEq

/-- Prepend records emitted earlier. -/
def Parse.after (out : List (List α)) (p : Parse α) : Parse α := ⟨out ++ p.records, p.rest⟩

@[simp] theorem Parse.after_nil (p : Parse α) : p.after [] = p := rfl

@[simp] theorem Parse.after_records (out : List (List α)) (p : Parse α) :
    (p.after out).records = out ++ p.records := rfl

@[simp] theorem Parse.after_rest (out : List (List α)) (p : Parse α) :
    (p.after out).rest = p.rest := rfl

theorem Parse.after_after (out more : List (List α)) (p : Parse α) :
    (p.after more).after out = p.after (out ++ more) := by
  simp [Parse.after]

namespace Format

variable (F : Format α)

/-- The record length announced at the front of a stream, if a whole window is there. -/
def header (s : List α) : Option Nat :=
  if s.length < F.width then none else F.check (s.take F.width)

/-- The decoder, with one unit of fuel per decision. -/
def scanAux : Nat → List α → Parse α
  | 0, s => ⟨[], s⟩
  | fuel + 1, s =>
      if s.length < F.width then ⟨[], s⟩
      else match F.header s with
        | none => scanAux fuel s.tail
        | some n =>
            if n ≤ s.length then (scanAux fuel (s.drop n)).after [s.take n] else ⟨[], s⟩

/-- Every decision consumes a symbol, so the length of the stream is enough fuel. -/
def scan (s : List α) : Parse α := F.scanAux s.length s

theorem width_le_of_header {s : List α} {n : Nat} (h : F.header s = some n) : F.width ≤ n := by
  unfold header at h
  split at h
  · cases h
  · exact F.width_le h

theorem header_pos {s : List α} {n : Nat} (h : F.header s = some n) : 0 < n :=
  Nat.lt_of_lt_of_le F.width_pos (F.width_le_of_header h)

theorem width_le_length_of_header {s : List α} {n : Nat} (h : F.header s = some n) :
    F.width ≤ s.length := by
  unfold header at h
  split at h
  · cases h
  · omega

theorem header_of_short {s : List α} (h : s.length < F.width) : F.header s = none := by
  simp [header, h]

/-- The header is a function of the window. -/
theorem header_congr {s t : List α} (hs : F.width ≤ s.length) (ht : F.width ≤ t.length)
    (h : s.take F.width = t.take F.width) : F.header s = F.header t := by
  rw [header, header, if_neg (Nat.not_lt.mpr hs), if_neg (Nat.not_lt.mpr ht), h]

theorem header_append {s : List α} (h : F.width ≤ s.length) (z : List α) :
    F.header (s ++ z) = F.header s := by
  apply F.header_congr
  · rw [List.length_append]
    omega
  · exact h
  · exact List.take_append_of_le_length h

private theorem scanAux_fuel (fuel : Nat) (s : List α) (h : s.length ≤ fuel) :
    F.scanAux fuel s = F.scanAux s.length s := by
  -- Both sides make the same decision; the induction covers what is left after it.
  induction fuel using Nat.strongRecOn generalizing s with
  | ind fuel ih =>
    cases s with
    | nil => cases fuel <;> simp [scanAux, F.width_pos]
    | cons a t =>
      obtain ⟨fuel, rfl⟩ : ∃ k, fuel = k + 1 := ⟨fuel - 1, by simp at h; omega⟩
      simp only [List.length_cons, Nat.add_le_add_iff_right] at h
      simp only [List.length_cons, scanAux, List.tail_cons]
      split
      · rfl
      · split
        · exact ih fuel (by omega) t h
        · rename_i n hn
          have hpos := F.header_pos hn
          have hlen : ((a :: t).drop n).length ≤ t.length := by simp; omega
          rw [ih fuel (by omega) _ (by omega)]
          by_cases hf : t.length < fuel + 1
          · rw [ih t.length (by omega) _ hlen]
          · omega

theorem scan_of_short {s : List α} (h : s.length < F.width) : F.scan s = ⟨[], s⟩ := by
  cases s with
  | nil => rfl
  | cons a t =>
    rw [scan, List.length_cons, scanAux, if_pos h]

theorem scan_of_skip {s : List α} (hw : F.width ≤ s.length) (h : F.header s = none) :
    F.scan s = F.scan s.tail := by
  cases s with
  | nil => rfl
  | cons a t =>
    have hw' : ¬ (a :: t).length < F.width := by omega
    simp only [scan, List.length_cons, scanAux, h] at hw' ⊢
    rw [if_neg hw']
    rfl

theorem scan_of_record {s : List α} {n : Nat} (h : F.header s = some n) (hn : n ≤ s.length) :
    F.scan s = (F.scan (s.drop n)).after [s.take n] := by
  have hw := F.width_le_length_of_header h
  cases s with
  | nil => have := F.width_pos; simp at hw; omega
  | cons a t =>
    have hw' : ¬ (a :: t).length < F.width := by omega
    have hpos := F.header_pos h
    simp only [scan, List.length_cons, scanAux, h] at hw' ⊢
    rw [if_neg hw', if_pos (by simpa using hn), F.scanAux_fuel _ _ (by simp; omega)]

theorem scan_of_wait {s : List α} {n : Nat} (h : F.header s = some n) (hn : s.length < n) :
    F.scan s = ⟨[], s⟩ := by
  have hw := F.width_le_length_of_header h
  cases s with
  | nil => rfl
  | cons a t =>
    have hw' : ¬ (a :: t).length < F.width := by omega
    have hn' : ¬ n ≤ t.length + 1 := by simp at hn; omega
    simp only [scan, List.length_cons, scanAux, h] at hw' ⊢
    rw [if_neg hw', if_neg hn']

/-- Induction along the decisions of the decoder. -/
theorem scan_induction {motive : List α → Prop}
    (short : ∀ s, s.length < F.width → motive s)
    (skip : ∀ s, F.width ≤ s.length → F.header s = none → motive s.tail → motive s)
    (record : ∀ s n, F.header s = some n → n ≤ s.length → motive (s.drop n) → motive s)
    (wait : ∀ s n, F.header s = some n → s.length < n → motive s) (s : List α) : motive s := by
  induction hk : s.length using Nat.strongRecOn generalizing s with
  | ind k ih =>
    subst hk
    have hpos := F.width_pos
    by_cases hw : s.length < F.width
    · exact short s hw
    cases hh : F.header s with
    | none => exact skip s (by omega) hh (ih s.tail.length (by simp; omega) _ rfl)
    | some n =>
      have := F.header_pos hh
      by_cases hn : n ≤ s.length
      · exact record s n hh hn (ih (s.drop n).length (by simp; omega) _ rfl)
      · exact wait s n hh (by omega)

/-! ## Scanning in pieces -/

/-- Holding `before`, a decoder may emit `out` and go on holding `after`. -/
def Advances (before : List α) (out : List (List α)) (after : List α) : Prop :=
  ∀ z, F.scan (before ++ z) = (F.scan (after ++ z)).after out

/-- Nothing can be decided about `s` before more symbols follow. -/
def Waits (s : List α) : Prop := F.scan s = ⟨[], s⟩

variable {F}

theorem Advances.refl (s : List α) : F.Advances s [] s := fun _ => rfl

theorem Advances.trans {a b c : List α} {out more : List (List α)}
    (h : F.Advances a out b) (k : F.Advances b more c) : F.Advances a (out ++ more) c := by
  intro z
  rw [h z, k z, Parse.after_after]

/-- Symbols that arrive while a decoder advances stay behind the ones it holds. -/
theorem Advances.append {a b : List α} {out : List (List α)} (h : F.Advances a out b)
    (t : List α) : F.Advances (a ++ t) out (b ++ t) := by
  intro z
  rw [List.append_assoc, List.append_assoc, h]

theorem Advances.scan_eq {a b : List α} {out : List (List α)} (h : F.Advances a out b) :
    F.scan a = (F.scan b).after out := by
  simpa using h []

theorem Advances.skip {s : List α} (hw : F.width ≤ s.length) (h : F.header s = none) :
    F.Advances s [] s.tail := by
  intro z
  have hz : F.header (s ++ z) = none := by rw [F.header_append hw, h]
  have hne : s ≠ [] := by
    rintro rfl
    have := F.width_pos
    simp at hw
    omega
  rw [F.scan_of_skip (by simp; omega) hz, List.tail_append_of_ne_nil hne, Parse.after_nil]

theorem Advances.record {s : List α} {n : Nat} (h : F.header s = some n) (hn : n ≤ s.length) :
    F.Advances s [s.take n] (s.drop n) := by
  intro z
  have hz : F.header (s ++ z) = some n := by
    rw [F.header_append (F.width_le_length_of_header h), h]
  rw [F.scan_of_record hz (by simp; omega), List.take_append_of_le_length hn,
    List.drop_append_of_le_length hn]

/-- A run of positions without a header is skipped as a whole. -/
theorem Advances.drop {s : List α} (k : Nat)
    (h : ∀ i < k, i + F.width ≤ s.length ∧ F.header (s.drop i) = none) :
    F.Advances s [] (s.drop k) := by
  induction k with
  | zero => exact Advances.refl s
  | succ k ih =>
    obtain ⟨hlen, hnone⟩ := h k (by omega)
    have hstep : F.Advances (s.drop k) [] (s.drop k).tail :=
      Advances.skip (by simp; omega) hnone
    rw [List.tail_drop] at hstep
    exact (ih fun i hi => h i (by omega)).trans hstep

/-- Resumability: scanning a first piece advances the decoder to what the scan left over. -/
theorem advances_scan (s : List α) : F.Advances s (F.scan s).records (F.scan s).rest := by
  induction s using F.scan_induction with
  | short s hs =>
    rw [F.scan_of_short hs]
    exact Advances.refl s
  | skip s hw hs ih =>
    rw [F.scan_of_skip hw hs]
    exact (Advances.skip hw hs).trans ih
  | record s n hs hn ih =>
    rw [F.scan_of_record hs hn]
    exact (Advances.record hs hn).trans ih
  | wait s n hs hn =>
    rw [F.scan_of_wait hs hn]
    exact Advances.refl s

theorem waits_of_short {s : List α} (h : s.length < F.width) : F.Waits s := F.scan_of_short h

theorem waits_of_wait {s : List α} {n : Nat} (h : F.header s = some n) (hn : s.length < n) :
    F.Waits s := F.scan_of_wait h hn

theorem length_rest_le (s : List α) : (F.scan s).rest.length ≤ s.length := by
  induction s using F.scan_induction with
  | short s hs => simp [F.scan_of_short hs]
  | skip s hw hs ih =>
    rw [F.scan_of_skip hw hs]
    simp at ih
    omega
  | record s n hs hn ih =>
    rw [F.scan_of_record hs hn, Parse.after_rest]
    simp at ih
    omega
  | wait s n hs hn => simp [F.scan_of_wait hs hn]

/-- Where a whole window is there, only an incomplete record makes the decoder wait. -/
theorem Waits.header {s : List α} (h : F.Waits s) (hw : F.width ≤ s.length) :
    ∃ n, F.header s = some n ∧ s.length < n := by
  have hpos := F.width_pos
  cases hh : F.header s with
  | none =>
    have hle := length_rest_le (F := F) s.tail
    rw [← F.scan_of_skip hw hh, h] at hle
    simp at hle
    omega
  | some n =>
    refine ⟨n, rfl, Nat.lt_of_not_le fun hn => ?_⟩
    have := congrArg Parse.records ((F.scan_of_record hh hn).symm.trans h)
    simp at this

/-- A decoder that advanced until it waits has produced exactly the scan. -/
theorem Advances.scan_of_waits {a b : List α} {out : List (List α)} (h : F.Advances a out b)
    (hb : F.Waits b) : F.scan a = ⟨out, b⟩ := by
  rw [h.scan_eq, hb]
  simp [Parse.after]

/-- A record that a waiting decoder emits next contains all the symbols it was holding. -/
theorem Waits.length_lt {s t r raw : List α} {out : List (List α)} (h : F.Waits s)
    (hadv : F.Advances (s ++ t) (raw :: out) r) (hraw : F.width ≤ raw.length) :
    s.length < raw.length := by
  by_cases hw : s.length < F.width
  · omega
  obtain ⟨n, hheader, hlt⟩ := h.header (by omega)
  have hst : F.header (s ++ t) = some n := by rw [F.header_append (by omega), hheader]
  have hscan := congrArg Parse.records hadv.scan_eq
  by_cases hn : n ≤ (s ++ t).length
  · rw [F.scan_of_record hst hn] at hscan
    obtain ⟨rfl, -⟩ := List.cons_eq_cons.mp hscan
    rw [List.length_take]
    omega
  · rw [F.scan_of_wait hst (by omega)] at hscan
    cases hscan

/-! ## Symbols that cannot take part in a record -/

variable (F)

/-- Dropping `p` from the front of a stream loses no record, whatever follows. -/
def Neutral (p : List α) : Prop := ∀ z, (F.scan (p ++ z)).records = (F.scan z).records

/-- No suffix of `p` can be continued to begin with a header. -/
def Inert (p : List α) : Prop := ∀ i < p.length, ∀ z, F.header (p.drop i ++ z) = none

variable {F}

theorem scan_records_of_short {s : List α} (h : s.length < F.width) :
    (F.scan s).records = [] := by
  rw [F.scan_of_short h]

theorem Inert.neutral {p : List α} (h : F.Inert p) : F.Neutral p := by
  intro z
  induction p with
  | nil => rfl
  | cons a p ih =>
    have hp : F.Inert p := by
      intro i hi z
      simpa using h (i + 1) (by simpa using hi) z
    by_cases hw : F.width ≤ (a :: p ++ z).length
    · rw [F.scan_of_skip hw (by simpa using h 0 (by simp) z)]
      exact ih hp
    · simp only [List.cons_append, List.length_cons, List.length_append] at hw
      rw [scan_records_of_short (by simp; omega), scan_records_of_short (by omega)]

/-- The records of a stream are no longer than the stream. -/
theorem length_le_of_mem_records {s r : List α} (h : r ∈ (F.scan s).records) :
    r.length ≤ s.length := by
  induction s using F.scan_induction with
  | short s hs => simp [F.scan_of_short hs] at h
  | skip s hw hs ih =>
    rw [F.scan_of_skip hw hs] at h
    have := ih h
    simp at this
    omega
  | record s n hs hn ih =>
    rw [F.scan_of_record hs hn, Parse.after_records, List.mem_append] at h
    rcases h with h | h
    · rw [List.mem_singleton] at h
      rw [h]
      exact List.length_take_le' n s
    · have := ih h
      simp at this
      omega
  | wait s n hs hn => simp [F.scan_of_wait hs hn] at h

/-- The scan of a stream whose first header lies at position `i` of `p`. -/
theorem scan_of_first_header {p y : List α} {i n : Nat} (hi : i ≤ p.length)
    (hbefore : ∀ j < i, F.header (p.drop j ++ y) = none)
    (hheader : F.header (p.drop i ++ y) = some n) (hn : n ≤ (p.drop i ++ y).length) :
    F.scan (p ++ y) = (F.scan ((p.drop i ++ y).drop n)).after [(p.drop i ++ y).take n] := by
  have hdrop : ∀ j ≤ i, (p ++ y).drop j = p.drop j ++ y := by
    intro j hj
    exact List.drop_append_of_le_length (by omega)
  have hadv : F.Advances (p ++ y) [] (p.drop i ++ y) := by
    rw [← hdrop i (Nat.le_refl i)]
    apply Advances.drop
    intro j hj
    constructor
    · have hwidth := F.width_le_of_header hheader
      simp only [List.length_append, List.length_drop] at hn ⊢
      omega
    · rw [hdrop j (by omega)]
      exact hbefore j hj
  rw [hadv.scan_eq, F.scan_of_record hheader hn, Parse.after_nil]

end Format

end FrameScan
