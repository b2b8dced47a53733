import Rdkafka.Buf.Buf
import Rdkafka.Lib.Leb128
import Rdkafka.Lib.ZigZag

/-!
# Varints

This file models the varint codec of `src/rdvarint.h`: the unsigned encoder
`rd_uvarint_enc_u64`, its zig-zag front end `rd_uvarint_enc_i64`, and the flat decoders
`rd_uvarint_dec` and `rd_varint_dec_i64`.

`uint64_t` and `int64_t` values are `BitVec 64`; a signed value is read through
`BitVec.toInt`.  Output buffers are the list of bytes written to them, and an out
parameter (`*nump`) is an `Option`: `none` when the function leaves it unwritten.

The encoder is `Leb128.encode` cut to the room it is given (`uvarintEncU64_eq`), and the
decoder is `Leb128.scan` over the first `srcsize` bytes (`uvarintDecLoop_eq`); the round
trip of the signed pair is `varintDecI64_uvarintEncI64`.
-/

set_option autoImplicit false

namespace Rdkafka

open Leb128

/-! ## Encoding -/

/-- `RD_UVARINT_ENC_SIZEOF(TYPE)`: the largest encoding of a value of a type of `sizeof`
bytes. -/
def uvarintEncSizeof (sizeof : ℕ) : ℕ := sizeof + 1 + sizeof / 7

/-- One byte of `rd_uvarint_enc_u64`: the low seven bits of `num`, with the high bit set
when more bytes follow. -/
def uvarintEncByte (num : BitVec 64) : UInt8 :=
  UInt8.ofNat ((num &&& 0x7f#64) ||| (if num > 0x7f#64 then 0x80#64 else 0#64)).toNat

/-- The `do … while (num)` loop of `rd_uvarint_enc_u64` with `room` bytes of `dst` left:
the bytes it writes, and whether it got to the end of the number. -/
def uvarintEncLoop : ℕ → BitVec 64 → List UInt8 × Bool
  | 0, _ => ([], false)
  | room + 1, num =>
    let b := uvarintEncByte num
    let num := num >>> 7
    if num ≠ 0 then
      let r := uvarintEncLoop room num
      (b :: r.1, r.2)
    else ([b], true)

/-- `rd_uvarint_enc_u64(dst, dstsize, num)`: the byte count it returns (`0` when `dst` is
too small) and the bytes it writes to `dst`. -/
def uvarintEncU64 (dstsize : ℕ) (num : BitVec 64) : ℕ × List UInt8 :=
  let r := uvarintEncLoop dstsize num
  (if r.2 then r.1.length else 0, r.1)

/-- `rd_uvarint_enc_i64(dst, dstsize, num)`: zig-zag encoding, then `rd_uvarint_enc_u64`. -/
def uvarintEncI64 (dstsize : ℕ) (num : BitVec 64) : ℕ × List UInt8 :=
  uvarintEncU64 dstsize ((num <<< 1) ^^^ num.sshiftRight 63)

theorem uvarintEncByte_eq (num : BitVec 64) :
    uvarintEncByte num =
      if num.toNat < 128 then UInt8.ofNat num.toNat else UInt8.ofNat (num.toNat % 128 + 128) := by
  have hlow : (num &&& 0x7f#64).toNat = num.toNat % 128 := by
    rw [BitVec.toNat_and]
    exact Nat.and_two_pow_sub_one_eq_mod num.toNat 7
  have hgt : (num > 0x7f#64) ↔ 128 ≤ num.toNat := by
    rw [gt_iff_lt, BitVec.lt_def]
    simp only [BitVec.toNat_ofNat]
    omega
  rw [uvarintEncByte]
  by_cases h : num.toNat < 128
  · rw [if_neg (fun hg => absurd (hgt.1 hg) (by omega)), if_pos h, BitVec.toNat_or, hlow]
    simp [Nat.mod_eq_of_lt h]
  · rw [if_pos (hgt.2 (by omega)), if_neg h, BitVec.toNat_or, hlow]
    have hor : num.toNat % 128 ||| 128 = num.toNat % 128 + 128 := by
      have h128 := Nat.two_pow_add_eq_or_of_lt (Nat.mod_lt num.toNat (show 0 < 2 ^ 7 by decide)) 1
      rw [Nat.or_comm]
      simpa [Nat.add_comm] using h128.symm
    simp [hor]

theorem toNat_ushiftRight_seven (num : BitVec 64) : (num >>> 7).toNat = num.toNat / 128 := by
  rw [BitVec.toNat_ushiftRight, Nat.shiftRight_eq_div_pow]

/-- The encoder loop writes the encoding of `num`, cut to its room, and finishes exactly
when the encoding fits. -/
theorem uvarintEncLoop_eq (room : ℕ) (num : BitVec 64) :
    uvarintEncLoop room num =
      ((encode num.toNat).take room, decide ((encode num.toNat).length ≤ room)) := by
  induction room generalizing num with
  | zero =>
    have := one_le_length_encode num.toNat
    simp only [uvarintEncLoop, List.take_zero, Prod.mk.injEq, true_and]
    simp only [Nat.le_zero, List.length_eq_zero_iff, encode_ne_nil, decide_false]
  | succ room ih =>
    have hshift := toNat_ushiftRight_seven num
    simp only [uvarintEncLoop, uvarintEncByte_eq]
    by_cases h : num.toNat < 128
    · have hz : num >>> 7 = 0 := BitVec.eq_of_toNat_eq (by rw [hshift]; simp; omega)
      rw [if_pos h, encode_of_lt h, if_neg (not_not.2 hz)]
      simp
    · have hnz : num >>> 7 ≠ 0 := fun hz => by
        have := congrArg BitVec.toNat hz
        rw [hshift] at this
        simp at this
        omega
      rw [if_neg h, encode_of_ge (v := num.toNat) (by omega), if_pos hnz, ih, hshift]
      simp

/-- **Encoder spec.**  `rd_uvarint_enc_u64` returns the length of the base-128 encoding of
`num` and writes it when it fits in `dstsize` bytes, and returns `0` after writing the first
`dstsize` bytes of it when it does not. -/
theorem uvarintEncU64_eq (dstsize : ℕ) (num : BitVec 64) :
    uvarintEncU64 dstsize num =
      if (encode num.toNat).length ≤ dstsize then ((encode num.toNat).length, encode num.toNat)
      else (0, (encode num.toNat).take dstsize) := by
  rw [uvarintEncU64, uvarintEncLoop_eq]
  by_cases h : (encode num.toNat).length ≤ dstsize
  · simp [h, List.take_of_length_le h]
  · simp [h]

/-- A 64-bit value takes one to ten bytes. -/
theorem length_encode_toNat_le (num : BitVec 64) :
    1 ≤ (encode num.toNat).length ∧ (encode num.toNat).length ≤ 10 := by
  refine ⟨one_le_length_encode _, length_encode_le 9 ?_⟩
  calc num.toNat < 2 ^ 64 := num.isLt
    _ ≤ 128 ^ (9 + 1) := by decide

/-- The zig-zag step of `rd_uvarint_enc_i64` is `BitVec.zigzagEncode`. -/
theorem zigzag_eq_zigzagEncode (num : BitVec 64) :
    (num <<< 1) ^^^ num.sshiftRight 63 = BitVec.zigzagEncode num := rfl

/-! ## Decoding -/

/-- The `do … while` loop of `rd_uvarint_dec` over the bytes still allowed by `srcsize`,
at offset `of`: the offset after the last byte, or `0` on underflow, and the number when
it was complete.  `src` holds `char`s in the source; `& 0x7f` and `& 0x80` read the same
bits of a byte whether `char` is signed or not.  A shift of `64` or more, undefined in C,
is only reached after ten continuation bytes. -/
def uvarintDecLoop : List UInt8 → ℕ → BitVec 64 → ℕ → ℕ × Option (BitVec 64)
  | [], _, _, _ => (0, none)
  | oct :: src, of, num, shift =>
    let num := num ||| BitVec.ofNat 64 (oct &&& 0x7f).toNat <<< shift
    if oct &&& 0x80 = 0 then (of + 1, some num)
    else uvarintDecLoop src (of + 1) num (shift + 7)

/-- `rd_uvarint_dec(src, srcsize, &num)`: the byte count (`0` on underflow) and `num`. -/
def uvarintDec (src : List UInt8) (srcsize : ℕ) : ℕ × Option (BitVec 64) :=
  uvarintDecLoop (src.take srcsize) 0 0 0

/-- `RD_UVARINT_DEC_FAILED(r)`: underflow (`0`) or overflow (more than `SIZE_MAX`). -/
def uvarintDecFailed (r : ℕ) : Bool := r == 0 || r > sizeMax

/-- `rd_varint_dec_i64(src, srcsize, &num)`: `rd_uvarint_dec` followed by zig-zag
decoding. -/
def varintDecI64 (src : List UInt8) (srcsize : ℕ) : ℕ × Option (BitVec 64) :=
  let r := uvarintDec src srcsize
  if !uvarintDecFailed r.1 then (r.1, r.2.map fun (n : BitVec 64) => (n >>> 1) ^^^ -(n &&& 1#64))
  else (r.1, none)

/-- The decoder loop is a `Leb128.scan`: it ends with the scan and reports the bytes the
scan used. -/
theorem uvarintDecLoop_eq (src : List UInt8) (of : ℕ) (num : BitVec 64) (shift : ℕ) :
    uvarintDecLoop src of num shift =
      match scan num shift src with
      | .done n k => (of + k, some n)
      | .more _ _ => (0, none) := by
  induction src generalizing of num shift with
  | nil => rfl
  | cons oct src ih =>
    rw [uvarintDecLoop, scan_cons]
    by_cases hb : oct &&& 0x80 = 0
    · simp only [if_pos hb]
    · simp only [if_neg hb, ih]
      cases scan (num ||| BitVec.ofNat 64 (oct &&& 0x7f).toNat <<< shift) (shift + 7) src <;>
        simp [Scan.addUsed, Nat.add_assoc, Nat.add_comm 1]

/-- **Decoder spec.**  `rd_uvarint_dec` reads back exactly the encoding of `num`, whatever
bytes follow it, when `srcsize` covers it. -/
theorem uvarintDec_encode_append (num : BitVec 64) (t : List UInt8) {srcsize : ℕ}
    (hsize : (encode num.toNat).length ≤ srcsize) :
    uvarintDec (encode num.toNat ++ t) srcsize = ((encode num.toNat).length, some num) := by
  obtain ⟨t', ht'⟩ : ∃ t', (encode num.toNat ++ t).take srcsize = encode num.toNat ++ t' :=
    ⟨t.take (srcsize - (encode num.toNat).length), by
      rw [List.take_append, List.take_of_length_le hsize]⟩
  have hscan : scan (0 : BitVec 64) 0 (encode num.toNat ++ t') =
      .done (BitVec.ofNat 64 ((0 : BitVec 64).toNat + num.toNat * 2 ^ 0)) (encode num.toNat).length :=
    scan_encode_append (by simp) num.toNat t'
  rw [uvarintDec, ht', uvarintDecLoop_eq, hscan]
  simp

/-- `rd_uvarint_dec` reports underflow when `srcsize` ends inside an encoding. -/
theorem uvarintDec_encode_underflow (num : BitVec 64) (t : List UInt8) {srcsize : ℕ}
    (hsize : srcsize < (encode num.toNat).length) :
    uvarintDec (encode num.toNat ++ t) srcsize = (0, none) := by
  obtain ⟨a, s', h⟩ : ∃ a s', scan (0 : BitVec 64) 0 ((encode num.toNat ++ t).take srcsize) =
      .more a s' :=
    scan_take_encode num.toNat t hsize
  rw [uvarintDec, uvarintDecLoop_eq, h]

/-- Into a buffer of `RD_UVARINT_ENC_SIZEOF(int64_t)` bytes or more, `rd_uvarint_enc_i64`
writes the whole base-128 encoding of the zig-zag code. -/
theorem uvarintEncI64_eq_encode (num : BitVec 64) {dstsize : ℕ}
    (hdst : uvarintEncSizeof 8 ≤ dstsize) :
    uvarintEncI64 dstsize num =
      ((encode (BitVec.zigzagEncode num).toNat).length, encode (BitVec.zigzagEncode num).toNat) := by
  have hlen := length_encode_toNat_le (BitVec.zigzagEncode num)
  have hfit : (encode (BitVec.zigzagEncode num).toNat).length ≤ dstsize := by
    have : uvarintEncSizeof 8 = 10 := rfl
    omega
  rw [uvarintEncI64, zigzag_eq_zigzagEncode, uvarintEncU64_eq, if_pos hfit]

theorem not_uvarintDecFailed_length_encode (u : BitVec 64) :
    uvarintDecFailed (encode u.toNat).length = false := by
  have hlen := length_encode_toNat_le u
  simp only [uvarintDecFailed, Bool.or_eq_false_iff, beq_eq_false_iff_ne, ne_eq,
    decide_eq_false_iff_not, not_lt]
  exact ⟨by omega, by unfold sizeMax; omega⟩

/-- `rd_varint_dec_i64` reads an encoding back and zig-zag decodes it. -/
theorem varintDecI64_encode_append (u : BitVec 64) (t : List UInt8) {srcsize : ℕ}
    (hsrc : (encode u.toNat).length ≤ srcsize) :
    varintDecI64 (encode u.toNat ++ t) srcsize =
      ((encode u.toNat).length, some (BitVec.zigzagDecode u)) := by
  rw [varintDecI64, uvarintDec_encode_append u t hsrc]
  simp only [not_uvarintDecFailed_length_encode, Bool.not_false, if_true, Option.map_some]
  rfl

/-- **A truncated varint is an underflow.**  When `srcsize` ends inside the encoding of `u`,
`rd_varint_dec_i64` returns `0`, `RD_UVARINT_UNDERFLOW`, and no value, whatever bytes follow
in memory. -/
theorem varintDecI64_encode_underflow (u : BitVec 64) (t : List UInt8) {srcsize : ℕ}
    (hsrc : srcsize < (encode u.toNat).length) :
    varintDecI64 (encode u.toNat ++ t) srcsize = (0, none) := by
  rw [varintDecI64, uvarintDec_encode_underflow u t hsrc]
  rfl

/-- The two bytes `80 01` encode 128; a `srcsize` of one byte is an underflow. -/
theorem varintDecI64_encode_underflow_128 :
    varintDecI64 ([128, 1] ++ [7]) 1 = (0, none) := by
  have henc : encode (128 : BitVec 64).toNat = [128, 1] := by
    rw [show (128 : BitVec 64).toNat = 128 from rfl, encode_of_ge (by norm_num),
      encode_of_lt (by norm_num)]
    rfl
  rw [← henc]
  exact varintDecI64_encode_underflow 128 [7] (by rw [henc]; decide)

/-- **Signed round trip.**  For every `int64_t`, `rd_uvarint_enc_i64` into a buffer of at
least `RD_UVARINT_ENC_SIZEOF(int64_t)` bytes writes `k` bytes, one to ten, and
`rd_varint_dec_i64` reads them back, whatever follows them. -/
theorem varintDecI64_uvarintEncI64 (num : BitVec 64) (t : List UInt8) {dstsize k : ℕ}
    {enc : List UInt8} (hdst : uvarintEncSizeof 8 ≤ dstsize)
    (henc : uvarintEncI64 dstsize num = (k, enc)) :
    1 ≤ k ∧ k ≤ 10 ∧ enc.length = k ∧
      ∀ srcsize, k ≤ srcsize → varintDecI64 (enc ++ t) srcsize = (k, some num) := by
  rw [uvarintEncI64_eq_encode num hdst, Prod.mk.injEq] at henc
  obtain ⟨rfl, rfl⟩ := henc
  have hlen := length_encode_toNat_le (BitVec.zigzagEncode num)
  refine ⟨hlen.1, hlen.2, rfl, fun srcsize hsrc => ?_⟩
  rw [varintDecI64_encode_append _ t hsrc, BitVec.zigzagDecode_zigzagEncode]

end Rdkafka
