import Mathlib.Data.BitVec
import Mathlib.Tactic.Ring

/-!
# Base-128 varints

Unsigned LEB128: a natural number is written seven bits at a time, least significant group
first, each byte but the last with its high (continuation) bit set.  `encode` is that
encoding, and `scan` is the usual way of reading it back into a `w`-bit word: OR the low
seven bits of each byte in at bit `0, 7, 14, …` and stop after the first byte whose high bit
is clear.

`scan` reports either where the value ended (`Scan.done`) or, when every byte it was given
had the continuation bit, the state it stands in (`Scan.more`), so a scan over `bs ++ cs`
is a scan over `bs` continued over `cs` (`scan_append_of_more`).  This is what a reader
that walks a value split over several memory blocks relies on.  The main results are
`scan_encode_append` (a scan reads exactly the encoding, whatever follows it) and
`scan_take_encode` (a scan that is cut off inside an encoding does not finish).
-/

/-! ## Bytes and bits -/

namespace UInt8

theorem toNat_and_127 (b : UInt8) : (b &&& 0x7f).toNat = b.toNat % 128 := by
  rw [UInt8.toNat_and]
  exact Nat.and_two_pow_sub_one_eq_mod b.toNat 7

/-- The high bit of a byte is clear exactly when the byte is below `128`. -/
theorem and_128_eq_zero_iff (b : UInt8) : b &&& 0x80 = 0 ↔ b.toNat < 128 := by
  have hbits : ∀ n : Fin 256, (n.val &&& 128 = 0 ↔ n.val < 128) := by decide +kernel
  rw [← UInt8.toNat_inj, UInt8.toNat_and, UInt8.toNat_zero]
  exact hbits ⟨b.toNat, b.toNat_lt⟩

theorem toNat_ofNat_eq_of_lt {n : ℕ} (h : n < 256) : (UInt8.ofNat n).toNat = n := by
  rw [UInt8.toNat_ofNat', Nat.mod_eq_of_lt h]

end UInt8

namespace BitVec

variable {w : ℕ}

theorem toNat_ofNat_shiftLeft (d s : ℕ) :
    (BitVec.ofNat w d <<< s).toNat = d * 2 ^ s % 2 ^ w := by
  rw [toNat_shiftLeft, toNat_ofNat, Nat.shiftLeft_eq, Nat.mod_mul_mod]

/-- OR-ing `d` in above the bits of `acc` adds it, modulo the word size. -/
theorem toNat_or_ofNat_shiftLeft {acc : BitVec w} {d s : ℕ} (h : acc.toNat < 2 ^ s) :
    (acc ||| BitVec.ofNat w d <<< s).toNat = (acc.toNat + d * 2 ^ s) % 2 ^ w := by
  rw [toNat_or, toNat_ofNat_shiftLeft]
  rcases Nat.lt_or_ge s w with hs | hs
  · obtain ⟨m, rfl⟩ : ∃ m, w = s + m := ⟨w - s, by omega⟩
    have hsplit : d * 2 ^ s % 2 ^ (s + m) = 2 ^ s * (d % 2 ^ m) := by
      rw [Nat.pow_add, Nat.mul_comm (2 ^ s) (2 ^ m), Nat.mul_mod_mul_right, Nat.mul_comm]
    have hlt : acc.toNat + 2 ^ s * (d % 2 ^ m) < 2 ^ (s + m) := by
      have hd : d % 2 ^ m + 1 ≤ 2 ^ m := Nat.mod_lt _ (Nat.two_pow_pos m)
      calc acc.toNat + 2 ^ s * (d % 2 ^ m) < 2 ^ s * (d % 2 ^ m + 1) := by
            rw [Nat.mul_succ]; omega
        _ ≤ 2 ^ s * 2 ^ m := Nat.mul_le_mul_left _ hd
        _ = 2 ^ (s + m) := (Nat.pow_add 2 s m).symm
    rw [hsplit, Nat.or_comm, ← Nat.two_pow_add_eq_or_of_lt h, Nat.add_comm]
    rw [Nat.add_mod, hsplit, Nat.mod_eq_of_lt acc.isLt, Nat.mod_eq_of_lt hlt]
  · -- the group is shifted out of the word entirely
    have hz : d * 2 ^ s % 2 ^ w = 0 :=
      Nat.mod_eq_zero_of_dvd (Dvd.dvd.mul_left (Nat.pow_dvd_pow 2 hs) d)
    rw [hz, Nat.or_zero, Nat.add_mod, hz, Nat.add_zero, Nat.mod_mod, Nat.mod_eq_of_lt acc.isLt]

end BitVec

namespace Leb128

/-! ## Encoding -/

/-- The base-128 encoding of `v`, least significant group first. -/
def encode (v : ℕ) : List UInt8 :=
  if v < 128 then [UInt8.ofNat v] else UInt8.ofNat (v % 128 + 128) :: encode (v / 128)
termination_by v
decreasing_by omega

theorem encode_of_lt {v : ℕ} (h : v < 128) : encode v = [UInt8.ofNat v] := by
  rw [encode, if_pos h]

theorem encode_of_ge {v : ℕ} (h : 128 ≤ v) :
    encode v = UInt8.ofNat (v % 128 + 128) :: encode (v / 128) := by
  rw [encode, if_neg (by omega)]

theorem encode_ne_nil (v : ℕ) : encode v ≠ [] := by
  rw [encode]
  split <;> simp

theorem one_le_length_encode (v : ℕ) : 1 ≤ (encode v).length :=
  List.length_pos_iff.2 (encode_ne_nil v)

/-- A value below `128 ^ (k + 1)` takes at most `k + 1` bytes. -/
theorem length_encode_le {v : ℕ} (k : ℕ) (h : v < 128 ^ (k + 1)) :
    (encode v).length ≤ k + 1 := by
  induction k generalizing v with
  | zero =>
    rw [encode_of_lt (by simpa using h)]
    simp
  | succ k ih =>
    rcases Nat.lt_or_ge v 128 with hv | hv
    · rw [encode_of_lt hv]
      simp
    · rw [encode_of_ge hv, List.length_cons]
      have hdiv : v / 128 < 128 ^ (k + 1) := by
        rw [Nat.div_lt_iff_lt_mul (by decide), ← Nat.pow_succ]
        exact h
      have := ih hdiv
      omega

/-- A value of at least `128 ^ k` takes more than `k` bytes. -/
theorem lt_length_encode {v : ℕ} (k : ℕ) (h : 128 ^ k ≤ v) : k < (encode v).length := by
  induction k generalizing v with
  | zero => exact one_le_length_encode v
  | succ k ih =>
    have hv : 128 ≤ v := le_trans (Nat.le_self_pow (Nat.succ_ne_zero k) 128) h
    rw [encode_of_ge hv, List.length_cons]
    have hdiv : 128 ^ k ≤ v / 128 := by
      rw [Nat.le_div_iff_mul_le (by decide), ← Nat.pow_succ]
      exact h
    have := ih hdiv
    omega

/-! ## Decoding -/

variable {w : ℕ}

/-- Where a scan stands after the bytes it was given. -/
inductive Scan (w : ℕ) where
  /-- The value ended; `used` bytes were read. -/
  | done (acc : BitVec w) (used : ℕ)
  /-- Every byte had the continuation bit; the next group goes in at bit `s`. -/
  | more (acc : BitVec w) (s : ℕ)
  deriving DecidableEq

/-- Count `n` more bytes read before the value ended. -/
def Scan.addUsed (n : ℕ) : Scan w → Scan w
  | .done acc used => .done acc (used + n)
  | .more acc s => .more acc s

/-- Read a varint from `bs` into a `w`-bit word whose groups so far are `acc`, the next
one going in at bit `s`. -/
def scan (acc : BitVec w) (s : ℕ) : List UInt8 → Scan w
  | [] => .more acc s
  | b :: bs =>
    let acc := acc ||| BitVec.ofNat w (b &&& 0x7f).toNat <<< s
    if b &&& 0x80 = 0 then .done acc 1 else (scan acc (s + 7) bs).addUsed 1

@[simp] theorem scan_nil (acc : BitVec w) (s : ℕ) : scan acc s [] = .more acc s := rfl

theorem scan_cons (acc : BitVec w) (s : ℕ) (b : UInt8) (bs : List UInt8) :
    scan acc s (b :: bs) =
      if b &&& 0x80 = 0 then .done (acc ||| BitVec.ofNat w (b &&& 0x7f).toNat <<< s) 1
      else (scan (acc ||| BitVec.ofNat w (b &&& 0x7f).toNat <<< s) (s + 7) bs).addUsed 1 :=
  rfl

@[simp] theorem Scan.addUsed_zero (r : Scan w) : r.addUsed 0 = r := by
  cases r <;> rfl

theorem Scan.addUsed_addUsed (r : Scan w) (m n : ℕ) :
    (r.addUsed m).addUsed n = r.addUsed (m + n) := by
  cases r <;> simp [addUsed, Nat.add_assoc]

@[simp] theorem Scan.addUsed_eq_more {r : Scan w} {n : ℕ} {a : BitVec w} {s : ℕ} :
    r.addUsed n = .more a s ↔ r = .more a s := by
  cases r <;> simp [addUsed]

@[simp] theorem Scan.addUsed_eq_done {r : Scan w} {n k : ℕ} {a : BitVec w} :
    r.addUsed n = .done a k ↔ ∃ k', r = .done a k' ∧ k = k' + n := by
  cases r <;> simp [addUsed, eq_comm]

/-- A scan that finishes inside `bs` does not look at what follows. -/
theorem scan_append_of_done {acc a : BitVec w} {s k : ℕ} {bs : List UInt8}
    (h : scan acc s bs = .done a k) (cs : List UInt8) : scan acc s (bs ++ cs) = .done a k := by
  induction bs generalizing acc s k with
  | nil => simp at h
  | cons b bs ih =>
    rw [scan_cons] at h
    rw [List.cons_append, scan_cons]
    by_cases hb : b &&& 0x80 = 0
    · rwa [if_pos hb] at h ⊢
    · rw [if_neg hb] at h ⊢
      obtain ⟨k', hk', rfl⟩ := Scan.addUsed_eq_done.1 h
      rw [ih hk', Scan.addUsed]

/-- A scan that runs through `bs` carries on in `cs` from where it stopped. -/
theorem scan_append_of_more {acc a : BitVec w} {s s' : ℕ} {bs : List UInt8}
    (h : scan acc s bs = .more a s') (cs : List UInt8) :
    scan acc s (bs ++ cs) = (scan a s' cs).addUsed bs.length := by
  induction bs generalizing acc s with
  | nil =>
    cases h
    simp
  | cons b bs ih =>
    rw [scan_cons] at h
    rw [List.cons_append, scan_cons]
    by_cases hb : b &&& 0x80 = 0
    · rw [if_pos hb] at h
      cases h
    · rw [if_neg hb] at h ⊢
      rw [ih (Scan.addUsed_eq_more.1 h), Scan.addUsed_addUsed, List.length_cons]

/-- A finished scan used at least one and at most all of its bytes. -/
theorem scan_eq_done_used {acc a : BitVec w} {s k : ℕ} {bs : List UInt8}
    (h : scan acc s bs = .done a k) : 1 ≤ k ∧ k ≤ bs.length := by
  induction bs generalizing acc s k with
  | nil => simp at h
  | cons b bs ih =>
    rw [scan_cons] at h
    by_cases hb : b &&& 0x80 = 0
    · rw [if_pos hb, Scan.done.injEq] at h
      rw [← h.2, List.length_cons]
      omega
    · rw [if_neg hb] at h
      obtain ⟨k', hk', rfl⟩ := Scan.addUsed_eq_done.1 h
      have := ih hk'
      rw [List.length_cons]
      omega

/-- After a run of continuation bytes the next group goes in seven bits per byte higher. -/
theorem scan_eq_more_shift {acc a : BitVec w} {s s' : ℕ} {bs : List UInt8}
    (h : scan acc s bs = .more a s') : s' = s + 7 * bs.length := by
  induction bs generalizing acc s with
  | nil =>
    cases h
    simp
  | cons b bs ih =>
    rw [scan_cons] at h
    by_cases hb : b &&& 0x80 = 0
    · rw [if_pos hb] at h
      cases h
    · rw [if_neg hb] at h
      rw [ih (Scan.addUsed_eq_more.1 h), List.length_cons]
      omega

/-- The bytes of an encoding: the last has a clear high bit, the others a set one, and
each carries the next group of `v`. -/
theorem encode_head {v : ℕ} :
    ∃ b rest, encode v = b :: rest ∧ (b &&& 0x7f).toNat = v % 128 ∧
      (b &&& 0x80 = 0 ↔ v < 128) ∧ (v < 128 → rest = []) ∧
      (128 ≤ v → rest = encode (v / 128)) := by
  rcases Nat.lt_or_ge v 128 with hv | hv
  · refine ⟨UInt8.ofNat v, [], encode_of_lt hv, ?_, ?_, fun _ => rfl, fun h => absurd h (by omega)⟩
    · rw [UInt8.toNat_and_127, UInt8.toNat_ofNat_eq_of_lt (by omega)]
    · rw [UInt8.and_128_eq_zero_iff, UInt8.toNat_ofNat_eq_of_lt (by omega)]
  · refine ⟨UInt8.ofNat (v % 128 + 128), encode (v / 128), encode_of_ge hv, ?_, ?_,
      fun h => absurd h (by omega), fun _ => rfl⟩
    · rw [UInt8.toNat_and_127, UInt8.toNat_ofNat_eq_of_lt (by omega)]
      omega
    · rw [UInt8.and_128_eq_zero_iff, UInt8.toNat_ofNat_eq_of_lt (by omega)]
      omega

/-- **Round trip.**  Scanning an encoding of `v`, whatever follows it, adds `v` above the
groups read so far and reads exactly the encoding. -/
theorem scan_encode_append {acc : BitVec w} {s : ℕ} (hacc : acc.toNat < 2 ^ s) (v : ℕ)
    (t : List UInt8) :
    scan acc s (encode v ++ t) = .done (BitVec.ofNat w (acc.toNat + v * 2 ^ s)) (encode v).length := by
  induction v using Nat.strong_induction_on generalizing acc s with
  | _ v ih =>
    obtain ⟨b, rest, henc, hlow, hcont, hlast, hnext⟩ := encode_head (v := v)
    have hacc' := BitVec.toNat_or_ofNat_shiftLeft (w := w) (d := (b &&& 0x7f).toNat) hacc
    rw [henc, List.cons_append, scan_cons]
    rcases Nat.lt_or_ge v 128 with hv | hv
    · -- the last group
      rw [if_pos (hcont.2 hv), hlast hv]
      congr 1
      apply BitVec.eq_of_toNat_eq
      rw [hacc', BitVec.toNat_ofNat, hlow, Nat.mod_eq_of_lt hv]
    · rw [if_neg (fun h => absurd (hcont.1 h) (by omega)), hnext hv]
      have hbound : (acc ||| BitVec.ofNat w (b &&& 0x7f).toNat <<< s).toNat < 2 ^ (s + 7) := by
        rw [hacc', hlow]
        have hsum : acc.toNat + v % 128 * 2 ^ s < 2 ^ (s + 7) := by
          have hd : v % 128 + 1 ≤ 128 := Nat.mod_lt _ (by decide)
          calc acc.toNat + v % 128 * 2 ^ s < (v % 128 + 1) * 2 ^ s := by
                rw [Nat.succ_mul]; omega
            _ ≤ 2 ^ 7 * 2 ^ s := Nat.mul_le_mul_right _ hd
            _ = 2 ^ (s + 7) := by rw [Nat.pow_add, Nat.mul_comm]
        exact lt_of_le_of_lt (Nat.mod_le _ _) hsum
      rw [ih (v / 128) (by omega) hbound, Scan.addUsed, List.length_cons]
      congr 1
      apply BitVec.eq_of_toNat_eq
      rw [BitVec.toNat_ofNat, BitVec.toNat_ofNat, hacc', hlow, Nat.mod_add_mod]
      congr 1
      conv_rhs => rw [← Nat.mod_add_div v 128]
      rw [Nat.pow_add]
      ring

/-- A scan cut off before the last byte of an encoding runs out of bytes. -/
theorem scan_take_encode {acc : BitVec w} {s m : ℕ} (v : ℕ) (t : List UInt8)
    (hm : m < (encode v).length) : ∃ a s', scan acc s ((encode v ++ t).take m) = .more a s' := by
  induction v using Nat.strong_induction_on generalizing acc s m with
  | _ v ih =>
    obtain ⟨b, rest, henc, -, hcont, hlast, hnext⟩ := encode_head (v := v)
    rw [henc] at hm ⊢
    cases m with
    | zero => exact ⟨acc, s, by simp⟩
    | succ m =>
      rcases Nat.lt_or_ge v 128 with hv | hv
      · rw [hlast hv] at hm
        simp at hm
      · rw [List.cons_append, List.take_succ_cons, scan_cons,
          if_neg (fun h => absurd (hcont.1 h) (by omega))]
        rw [hnext hv, List.length_cons] at hm
        rw [hnext hv]
        obtain ⟨a, s', h⟩ : ∃ a s', scan (acc ||| BitVec.ofNat w (b &&& 0x7f).toNat <<< s)
            (s + 7) ((encode (v / 128) ++ t).take m) = .more a s' :=
          ih (v / 128) (by omega) (Nat.lt_of_succ_lt_succ hm)
        exact ⟨a, s', by rw [h, Scan.addUsed]⟩

end Leb128
