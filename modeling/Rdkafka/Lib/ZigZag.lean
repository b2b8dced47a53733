import Mathlib.Data.BitVec

/-!
# Zig-zag encoding of two's complement integers

Zig-zag encoding maps a signed `w`-bit integer to an unsigned one so that numbers of small
magnitude get small codes: `0, -1, 1, -2, 2, …` go to `0, 1, 2, 3, 4, …`.  On bit vectors
it is `(n <<< 1) ^^^ (n >>>ₛ (w - 1))`, and it is undone by
`(u >>> 1) ^^^ -(u &&& 1)`.  This file proves that the two are inverse
(`zigzagDecode_zigzagEncode`) by reading both as a choice on one bit: the sign bit of `n`
when encoding, the low bit of `u` when decoding.
-/

namespace BitVec

variable {w : ℕ}

/-- Zig-zag encoding: shift the sign bit out at the top and into every bit. -/
def zigzagEncode (n : BitVec w) : BitVec w := (n <<< 1) ^^^ n.sshiftRight (w - 1)

/-- Zig-zag decoding: the code without its low bit, complemented when the low bit is set. -/
def zigzagDecode (u : BitVec w) : BitVec w := (u >>> 1) ^^^ -(u &&& 1#w)

theorem getElem_pred_eq_msb (n : BitVec w) (h : w - 1 < w) : n[w - 1] = n.msb := by
  rw [msb_eq_getLsbD_last, getLsbD_eq_getElem h]

/-- An arithmetic shift by all but one bit copies the sign bit everywhere. -/
theorem sshiftRight_pred_eq (n : BitVec w) :
    n.sshiftRight (w - 1) = if n.msb then allOnes w else 0#w := by
  ext i hi
  simp only [getElem_sshiftRight]
  split
  · have hi0 : w - 1 + i = w - 1 := by omega
    simp only [hi0, getElem_pred_eq_msb n (by omega)]
    by_cases h : n.msb <;> simp [h]
  · by_cases h : n.msb <;> simp [h]

theorem shiftLeft_one_and_one (n : BitVec w) : (n <<< 1) &&& 1#w = 0#w := by
  ext i hi
  simp only [getElem_and, getElem_shiftLeft, getElem_one]
  by_cases hi0 : i = 0 <;> simp [hi0]

theorem not_shiftLeft_one_and_one (n : BitVec w) : ~~~(n <<< 1) &&& 1#w = 1#w := by
  ext i hi
  simp only [getElem_and, getElem_not, getElem_shiftLeft, getElem_one]
  by_cases hi0 : i = 0
  · simp [hi0]
  · simp [hi0]

theorem ushiftRight_one_shiftLeft_one {n : BitVec w} (h : n.msb = false) :
    (n <<< 1) >>> 1 = n := by
  ext i hi
  simp only [getElem_ushiftRight, getLsbD_shiftLeft]
  rcases Nat.lt_or_ge (i + 1) w with hi' | hi'
  · simp [hi', Nat.add_comm, getLsbD_eq_getElem hi]
  · obtain rfl : i = w - 1 := by omega
    rw [getElem_pred_eq_msb n hi, h]
    simp
    omega

theorem not_ushiftRight_one_not_shiftLeft_one {n : BitVec w} (h : n.msb = true) :
    ~~~((~~~(n <<< 1)) >>> 1) = n := by
  ext i hi
  simp only [getElem_not, getElem_ushiftRight, getLsbD_not, getLsbD_shiftLeft]
  rcases Nat.lt_or_ge (i + 1) w with hi' | hi'
  · simp [hi', Nat.add_comm, getLsbD_eq_getElem hi]
  · obtain rfl : i = w - 1 := by omega
    rw [getElem_pred_eq_msb n hi, h]
    simp
    omega

/-- Encoding is a shift, complemented for negative numbers. -/
theorem zigzagEncode_eq (n : BitVec w) :
    zigzagEncode n = if n.msb then ~~~(n <<< 1) else n <<< 1 := by
  rw [zigzagEncode, sshiftRight_pred_eq]
  cases n.msb
  · simp only [Bool.false_eq_true, if_false, xor_zero]
  · simp only [if_true, xor_allOnes]

/-- **Zig-zag decoding undoes zig-zag encoding.** -/
theorem zigzagDecode_zigzagEncode (n : BitVec w) : zigzagDecode (zigzagEncode n) = n := by
  rw [zigzagEncode_eq, zigzagDecode]
  cases h : n.msb
  · simp only [Bool.false_eq_true, if_false, shiftLeft_one_and_one, neg_zero, xor_zero]
    exact ushiftRight_one_shiftLeft_one h
  · simp only [if_true, not_shiftLeft_one_and_one, neg_one_eq_allOnes, xor_allOnes]
    exact not_ushiftRight_one_not_shiftLeft_one h

end BitVec
