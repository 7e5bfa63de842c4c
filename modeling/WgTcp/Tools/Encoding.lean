import Mathlib

/-!
# Keys as text

`key_to_base64` and `key_from_base64` compute each character without a branch
and without a table. What is read is what is written: a text is accepted only if
it is the one text of its key. A `char` is signed.
-/

namespace WgTcp

namespace Tools

namespace Encoding

def wgKeyLen : Nat := 32

/-- The result of `key_from_base64`: whether no bit of `ret` is set. -/
def accepts (ret : BitVec 8) : Bool := (ret.setWidth 32 - 1).sshiftRight 8 &&& 1 != 0

theorem accepts_iff : ∀ ret : BitVec 8, accepts ret ↔ ret = 0 := by decide +kernel

/-! ## Base64 -/

/-- A character of `encode_base64`. -/
def encodeChar (input : BitVec 8) : BitVec 8 :=
  let x : BitVec 32 := input.setWidth 32
  (x + 65 + ((25 - x).sshiftRight 8 &&& 6) - ((51 - x).sshiftRight 8 &&& 75)
    - ((61 - x).sshiftRight 8 &&& 15) + ((62 - x).sshiftRight 8 &&& 3)).setWidth 8

def encodeBase64 (src₀ src₁ src₂ : BitVec 8) : List (BitVec 8) :=
  let a : BitVec 32 := src₀.setWidth 32
  let b : BitVec 32 := src₁.setWidth 32
  let c : BitVec 32 := src₂.setWidth 32
  [(a >>> 2) &&& 63, (a <<< 4 ||| b >>> 4) &&& 63, (b <<< 2 ||| c >>> 6) &&& 63, c &&& 63].map
    fun input => encodeChar (input.setWidth 8)

/-- The blocks of `key_to_base64`. The last character of the last one is written over. -/
def encodeBlocks : Nat → List (BitVec 8) → List (BitVec 8)
  | n + 1, a :: b :: c :: rest => encodeBase64 a b c ++ encodeBlocks n rest
  | 0, [a, b] => (encodeBase64 a b 0#8).take 3 ++ [61]
  | _, _ => []

def keyToBase64 (key : List (BitVec 8)) : List (BitVec 8) := encodeBlocks (wgKeyLen / 3) key

/-- A character of `decode_base64`; `-1` if it is not one of the alphabet. -/
def decodeChar (src : BitVec 8) : BitVec 32 :=
  let c : BitVec 32 := src.signExtend 32
  let val : BitVec 32 := -1
  val + (((64 - c) &&& (c - 91)).sshiftRight 8 &&& (c - 64))
    + (((96 - c) &&& (c - 123)).sshiftRight 8 &&& (c - 70))
    + (((47 - c) &&& (c - 58)).sshiftRight 8 &&& (c + 5))
    + (((42 - c) &&& (c - 44)).sshiftRight 8 &&& 63)
    + (((46 - c) &&& (c - 48)).sshiftRight 8 &&& 64)

def decodeBase64 (src₀ src₁ src₂ src₃ : BitVec 8) : BitVec 32 :=
  decodeChar src₀ <<< 18 ||| decodeChar src₁ <<< 12 ||| decodeChar src₂ <<< 6 ||| decodeChar src₃

def byteAt (val : BitVec 32) (shift : Nat) : BitVec 8 := ((val >>> shift) &&& 0xff).setWidth 8

/-- The blocks of `key_from_base64`, with `ret`. -/
def decodeBlocks : Nat → List (BitVec 8) → List (BitVec 8) × BitVec 8
  | n + 1, w :: x :: y :: z :: rest =>
      let val := decodeBase64 w x y z
      let blocks := decodeBlocks n rest
      (byteAt val 16 :: byteAt val 8 :: byteAt val 0 :: blocks.1,
        (val >>> 31).setWidth 8 ||| blocks.2)
  | 0, [w, x, y, _] =>
      let val := decodeBase64 w x y 65
      ([byteAt val 16, byteAt val 8], (val >>> 31 ||| val &&& 0xff).setWidth 8)
  | _, _ => ([], 0)

def keyFromBase64 (base64 : List (BitVec 8)) : Option (List (BitVec 8)) :=
  let blocks := decodeBlocks (wgKeyLen / 3) base64
  if base64.length ≠ 44 ∨ base64[43]? ≠ some 61 then none
  else if accepts blocks.2 then some blocks.1
  else none

theorem decodeChar_encodeChar :
    ∀ p : BitVec 6, decodeChar (encodeChar (p.setWidth 8)) = p.setWidth 32 := by
  decide +kernel

theorem decodeChar_cases (c : BitVec 8) :
    decodeChar c = -1 ∨ ∃ p : BitVec 6, c = encodeChar (p.setWidth 8) := by
  have hall : ∀ c : BitVec 8, decodeChar c = -1 ∨
      c = encodeChar (((decodeChar c).setWidth 6).setWidth 8) := by decide +kernel
  exact (hall c).imp_right fun hc => ⟨_, hc⟩

/-- The six bits of each character. -/
theorem encodeBase64_eq {p q r s : BitVec 6} {val : BitVec 32}
    (hval : val = p.setWidth 32 <<< 18 ||| q.setWidth 32 <<< 12 ||| r.setWidth 32 <<< 6 |||
      s.setWidth 32) :
    encodeBase64 (byteAt val 16) (byteAt val 8) (byteAt val 0) =
      [p, q, r, s].map fun x => encodeChar (x.setWidth 8) := by
  subst hval
  simp only [encodeBase64, byteAt, List.map_cons, List.map_nil, List.cons.injEq, and_true]
  refine ⟨?_, ?_, ?_, ?_⟩ <;> congr 1 <;> ext i hi <;> interval_cases i <;> simp

theorem byteAt_sextets {a b c : BitVec 8} :
    ∃ p q r s : BitVec 6, ∃ val : BitVec 32,
      val = p.setWidth 32 <<< 18 ||| q.setWidth 32 <<< 12 ||| r.setWidth 32 <<< 6 |||
        s.setWidth 32 ∧ byteAt val 16 = a ∧ byteAt val 8 = b ∧ byteAt val 0 = c := by
  refine ⟨(a >>> 2).setWidth 6, (a <<< 4 ||| b >>> 4).setWidth 6, (b <<< 2 ||| c >>> 6).setWidth 6,
    c.setWidth 6, _, rfl, ?_, ?_, ?_⟩ <;> ext i hi <;> interval_cases i <;> simp [byteAt]

/-- A block is accepted if it is the one of its bytes. -/
theorem decodeBase64_iff {w x y z a b c : BitVec 8} :
    (decodeBase64 w x y z >>> 31 = 0 ∧ byteAt (decodeBase64 w x y z) 16 = a ∧
      byteAt (decodeBase64 w x y z) 8 = b ∧ byteAt (decodeBase64 w x y z) 0 = c) ↔
      [w, x, y, z] = encodeBase64 a b c := by
  constructor
  · rintro ⟨hsign, rfl, rfl, rfl⟩
    have hbit : (decodeBase64 w x y z).getLsbD 31 = false := by
      simpa using congrArg (·.getLsbD 0) hsign
    rcases decodeChar_cases w with hw | ⟨p, rfl⟩
    · simp [decodeBase64, hw] at hbit
    rcases decodeChar_cases x with hx | ⟨q, rfl⟩
    · simp [decodeBase64, hx] at hbit
    rcases decodeChar_cases y with hy | ⟨r, rfl⟩
    · simp [decodeBase64, hy] at hbit
    rcases decodeChar_cases z with hz | ⟨s, rfl⟩
    · simp [decodeBase64, hz] at hbit
    simp only [decodeBase64, decodeChar_encodeChar]
    exact (encodeBase64_eq rfl).symm
  · intro h
    obtain ⟨p, q, r, s, val, hval, rfl, rfl, rfl⟩ := @byteAt_sextets a b c
    rw [encodeBase64_eq hval] at h
    simp only [List.map_cons, List.map_nil, List.cons.injEq, and_true] at h
    obtain ⟨rfl, rfl, rfl, rfl⟩ := h
    have hdecode : decodeBase64 (encodeChar (p.setWidth 8)) (encodeChar (q.setWidth 8))
        (encodeChar (r.setWidth 8)) (encodeChar (s.setWidth 8)) = val := by
      simp only [decodeBase64, decodeChar_encodeChar, hval]
    rw [hdecode]
    refine ⟨?_, rfl, rfl, rfl⟩
    rw [hval]
    ext i hi
    interval_cases i <;> simp

theorem sign_eq_zero {val : BitVec 32} : (val >>> 31).setWidth 8 = 0#8 ↔ val >>> 31 = 0 := by
  bv_omega

/-- What the loop reads without an error is the text of what it has read. -/
theorem decodeBlocks_iff {n : Nat} {base64 key : List (BitVec 8)} :
    base64.length = 4 * n + 4 ∧ base64[4 * n + 3]? = some 61 ∧ decodeBlocks n base64 = (key, 0) ↔
      key.length = 3 * n + 2 ∧ base64 = encodeBlocks n key := by
  induction n generalizing base64 key with
  | zero =>
    constructor
    · rintro ⟨hlength, hlast, hdecode⟩
      obtain ⟨w, x, y, z, rfl⟩ := List.length_eq_four.mp hlength
      obtain rfl : z = 61 := by simpa using hlast
      obtain ⟨rfl, hret⟩ := Prod.mk.inj hdecode
      rw [BitVec.setWidth_or] at hret
      obtain ⟨hsign, hlow⟩ := BitVec.or_eq_zero_iff.mp hret
      have hblock := decodeBase64_iff.mp ⟨sign_eq_zero.mp hsign, rfl, rfl, hlow⟩
      exact ⟨rfl, by rw [encodeBlocks, ← hblock]; rfl⟩
    · rintro ⟨hkey, rfl⟩
      obtain ⟨a, b, rfl⟩ := List.length_eq_two.mp hkey
      obtain ⟨w, x, y, hblock⟩ : ∃ w x y, [w, x, y, 65] = encodeBase64 a b 0#8 := ⟨_, _, _, rfl⟩
      obtain ⟨hsign, rfl, rfl, hlow⟩ := decodeBase64_iff.mpr hblock
      rw [encodeBlocks, ← hblock]
      refine ⟨rfl, rfl, Prod.ext rfl ?_⟩
      exact BitVec.setWidth_or.trans (BitVec.or_eq_zero_iff.mpr ⟨sign_eq_zero.mpr hsign, hlow⟩)
  | succ n ih =>
    constructor
    · rintro ⟨hlength, hlast, hdecode⟩
      rcases base64 with _ | ⟨w, _ | ⟨x, _ | ⟨y, _ | ⟨z, rest⟩⟩⟩⟩ <;>
        simp only [List.length_cons, List.length_nil] at hlength <;> try omega
      obtain ⟨rfl, hret⟩ := Prod.mk.inj hdecode
      obtain ⟨hsign, hret⟩ := BitVec.or_eq_zero_iff.mp hret
      have hblock := decodeBase64_iff.mp ⟨sign_eq_zero.mp hsign, rfl, rfl, rfl⟩
      obtain ⟨hkey, hrest⟩ := ih.mp ⟨by omega, by simpa [Nat.mul_succ] using hlast,
        Prod.ext rfl hret⟩
      refine ⟨by simp only [List.length_cons, hkey]; omega, ?_⟩
      rw [encodeBlocks, ← hblock, ← hrest]
      rfl
    · rintro ⟨hkey, rfl⟩
      rcases key with _ | ⟨a, _ | ⟨b, _ | ⟨c, key⟩⟩⟩ <;>
        simp only [List.length_cons, List.length_nil] at hkey <;> try omega
      obtain ⟨hlength, hlast, hdecode⟩ := ih.mpr ⟨show key.length = _ by omega, rfl⟩
      obtain ⟨w, x, y, z, hblock⟩ : ∃ w x y z, [w, x, y, z] = encodeBase64 a b c :=
        ⟨_, _, _, _, rfl⟩
      obtain ⟨hsign, rfl, rfl, rfl⟩ := decodeBase64_iff.mpr hblock
      rw [encodeBlocks, ← hblock]
      refine ⟨by simp [hlength, Nat.mul_succ], by simpa [Nat.mul_succ] using hlast, ?_⟩
      simp only [List.cons_append, List.nil_append, decodeBlocks, hdecode, sign_eq_zero.mpr hsign]
      rfl

/-- A text is read as a key if it is the text that is written for the key. -/
theorem keyFromBase64_eq_some_iff {base64 key : List (BitVec 8)} :
    keyFromBase64 base64 = some key ↔ key.length = wgKeyLen ∧ base64 = keyToBase64 key := by
  refine Iff.trans ?_ (@decodeBlocks_iff 10 base64 key)
  simp only [keyFromBase64, Option.ite_none_left_eq_some, Option.ite_none_right_eq_some, not_or,
    not_not, accepts_iff, Option.some.injEq, Prod.ext_iff]
  tauto

end Encoding

end Tools

end WgTcp
