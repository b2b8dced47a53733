import Mathlib.Data.BitVec
import Mathlib.Algebra.Order.BigOperators.Group.List

/-!
# Fixed-width fields in network byte order

A record of fixed-width integer fields is the concatenation of their big-endian bytes.
Writers that fill such a record in later overwrite a field at its offset, and readers take
the fields back one after the other.  This file gives the byte order (`BigEndian.toBytes`,
`BigEndian.ofBytes`, with the round trip `ofBytes_toBytes`) and the overwrite of a stretch
of a list (`List.overwrite`), with the fact that overwriting a whole field of a
concatenation of fields replaces that field (`List.overwrite_flatten`).  A buffer stored in
pieces is overwritten piece by piece, each piece taking the part of the new bytes that
falls in it (`List.overwrite_append`).
-/

set_option autoImplicit false

namespace BigEndian

/-- The `w` bytes of `n`, most significant first; bits above `8 * w` are dropped. -/
def toBytes : ℕ → ℕ → List UInt8
  | 0, _ => []
  | w + 1, n => toBytes w (n / 256) ++ [UInt8.ofNat (n % 256)]

/-- The number whose bytes, most significant first, are `l`. -/
def ofBytes (l : List UInt8) : ℕ := l.foldl (fun acc b => 256 * acc + b.toNat) 0

@[simp] theorem toBytes_zero (n : ℕ) : toBytes 0 n = [] := rfl

theorem toBytes_succ (w n : ℕ) :
    toBytes (w + 1) n = toBytes w (n / 256) ++ [UInt8.ofNat (n % 256)] := rfl

@[simp] theorem length_toBytes (w n : ℕ) : (toBytes w n).length = w := by
  induction w generalizing n with
  | zero => rfl
  | succ w ih => simp [toBytes_succ, ih]

@[simp] theorem ofBytes_nil : ofBytes [] = 0 := rfl

theorem ofBytes_append_singleton (l : List UInt8) (b : UInt8) :
    ofBytes (l ++ [b]) = 256 * ofBytes l + b.toNat := by
  rw [ofBytes, List.foldl_append]
  rfl

theorem ofBytes_toBytes (w n : ℕ) : ofBytes (toBytes w n) = n % 256 ^ w := by
  induction w generalizing n with
  | zero => rw [toBytes_zero, ofBytes_nil, pow_zero, Nat.mod_one]
  | succ w ih =>
    have hbyte : (UInt8.ofNat (n % 256)).toNat = n % 256 := by
      rw [UInt8.toNat_ofNat']
      omega
    rw [toBytes_succ, ofBytes_append_singleton, ih, hbyte, pow_succ', Nat.mod_mul]
    omega

/-- A machine integer of `k` bytes comes back from its bytes. -/
theorem ofNat_ofBytes_toBytes {w : ℕ} (k : ℕ) (hw : w = 8 * k) (v : BitVec w) :
    BitVec.ofNat w (ofBytes (toBytes k v.toNat)) = v := by
  subst hw
  have hlt : v.toNat < 256 ^ k :=
    calc v.toNat < 2 ^ (8 * k) := v.isLt
      _ = 256 ^ k := by rw [pow_mul]; rfl
  rw [ofBytes_toBytes, Nat.mod_eq_of_lt hlt, BitVec.ofNat_toNat, BitVec.setWidth_eq]

end BigEndian

namespace List

variable {α : Type}

/-- `l` with the elements from position `i` on replaced by `bs`. -/
def overwrite (l : List α) (i : ℕ) (bs : List α) : List α :=
  l.take i ++ bs ++ l.drop (i + bs.length)

theorem length_overwrite {l bs : List α} {i : ℕ} (h : i + bs.length ≤ l.length) :
    (l.overwrite i bs).length = l.length := by
  simp only [overwrite, length_append, length_take, length_drop]
  omega

/-- Overwriting exactly the middle part of `a ++ b ++ c` replaces it. -/
theorem overwrite_append_append (a b c bs : List α) (h : bs.length = b.length) :
    (a ++ b ++ c).overwrite a.length bs = a ++ bs ++ c := by
  have htake : (a ++ b ++ c).take a.length = a := by
    rw [List.append_assoc, List.take_left]
  have hdrop : (a ++ b ++ c).drop (a.length + bs.length) = c :=
    List.drop_left' (by rw [List.length_append, h])
  rw [overwrite, htake, hdrop]

theorem overwrite_append_left (a l bs : List α) (i : ℕ) :
    (a ++ l).overwrite (a.length + i) bs = a ++ l.overwrite i bs := by
  simp only [overwrite, List.take_append, List.drop_append, List.append_assoc,
    List.take_of_length_le (Nat.le_add_right a.length i), Nat.add_sub_cancel_left,
    List.drop_eq_nil_of_le (show a.length ≤ a.length + i + bs.length by omega), List.nil_append]
  congr 2
  · rw [Nat.add_assoc, Nat.add_sub_cancel_left]

theorem overwrite_append_right (l c bs : List α) {i : ℕ} (h : i + bs.length ≤ l.length) :
    (l ++ c).overwrite i bs = l.overwrite i bs ++ c := by
  simp only [overwrite, List.take_append_of_le_length (show i ≤ l.length by omega),
    List.drop_append_of_le_length h, List.append_assoc]

@[simp] theorem overwrite_nil (l : List α) (i : ℕ) : l.overwrite i [] = l := by
  simp [overwrite]

/-- **Overwriting across two pieces.**  An overwrite that starts in the first piece writes
what fits into it and the rest from the start of the second piece. -/
theorem overwrite_append {l₁ l₂ bs : List α} {i : ℕ} (hi : i ≤ l₁.length) :
    (l₁ ++ l₂).overwrite i bs =
      l₁.overwrite i (bs.take (l₁.length - i)) ++
        l₂.overwrite 0 (bs.drop (l₁.length - i)) := by
  unfold overwrite
  rw [List.take_append_of_le_length hi, List.take_zero, List.nil_append, Nat.zero_add]
  by_cases hbs : bs.length ≤ l₁.length - i
  · -- the overwrite ends in the first piece
    rw [List.take_of_length_le hbs, List.drop_of_length_le hbs, List.length_nil, List.drop_zero,
      List.drop_append_of_le_length (by omega)]
    simp
  · -- the overwrite runs over the end of the first piece
    have hk : (bs.take (l₁.length - i)).length = l₁.length - i := by
      rw [List.length_take]
      omega
    rw [hk, show i + (l₁.length - i) = l₁.length by omega, List.drop_length, List.append_nil,
      List.drop_append, List.drop_of_length_le (by omega : l₁.length ≤ i + bs.length),
      List.nil_append, List.length_drop,
      show i + bs.length - l₁.length = bs.length - (l₁.length - i) by omega]
    simp only [List.append_assoc]
    rw [← List.append_assoc (bs.take _), List.take_append_drop]

theorem eq_take_append_getElem_cons_drop (L : List α) {j : ℕ} (hj : j < L.length) :
    L = L.take j ++ L[j] :: L.drop (j + 1) := by
  rw [← List.drop_eq_getElem_cons hj, List.take_append_drop]

theorem sum_take_eq_length_flatten (L : List (List α)) (j : ℕ) :
    ((L.take j).map List.length).sum = (L.take j).flatten.length := by
  rw [List.length_flatten]

/-- In a concatenation of fields, overwriting field `j` with bytes of its width replaces
that field. -/
theorem overwrite_flatten (L : List (List α)) {j : ℕ} (hj : j < L.length) (bs : List α)
    (h : bs.length = L[j].length) :
    L.flatten.overwrite ((L.take j).map List.length).sum bs = (L.set j bs).flatten := by
  have hset : L.set j bs = L.take j ++ bs :: L.drop (j + 1) := List.set_eq_take_cons_drop _ hj
  rw [hset, sum_take_eq_length_flatten]
  nth_rewrite 1 [eq_take_append_getElem_cons_drop L hj]
  simp only [List.flatten_append, List.flatten_cons, ← List.append_assoc]
  exact overwrite_append_append _ _ _ _ h

/-- Field `j` of a concatenation of fields ends within it. -/
theorem sum_take_add_length_le (L : List (List α)) {j : ℕ} (hj : j < L.length) :
    ((L.take j).map List.length).sum + L[j].length ≤ L.flatten.length := by
  have hlen := congrArg (fun L => L.flatten.length) (eq_take_append_getElem_cons_drop L hj)
  simp only [List.flatten_append, List.flatten_cons, List.length_append] at hlen
  rw [sum_take_eq_length_flatten]
  omega

end List
