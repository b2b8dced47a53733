import Mathlib.Data.Int.CardIntervalMod

/-!
# Shares of a count

Facts about dividing `n` items among `m` takers.  Dealing them out in turn, item `j` to
taker `j % m`, gives every taker `n / m` or `n / m + 1` of them (`countP_range_mod_eq`).
A taker's share under a cap of `n / m + 1`, with at most `n % m` takers at the cap, cannot
add up to `n` unless every share is `n / m` or `n / m + 1` and exactly `n % m` takers are
at the cap (`Quota` below).

Nothing here knows what the items or the takers are.
-/

set_option autoImplicit false

namespace Quota

/-! ## Dealing in turn -/

theorem countP_range_mod_eq_count {m i : ℕ} (hi : i < m) (n : ℕ) :
    (List.range n).countP (fun j => j % m = i) = Nat.count (· ≡ i [MOD m]) n := by
  induction n with
  | zero => simp
  | succ n ih =>
    rw [List.range_succ, List.countP_append, ih, Nat.count_succ]
    have hmod : n ≡ i [MOD m] ↔ n % m = i := by
      rw [Nat.ModEq, Nat.mod_eq_of_lt hi]
    by_cases h : n % m = i
    · simp [h, hmod.2 h]
    · simp [h, mt hmod.1 h]

/-- **Dealing in turn.**  Of the first `n` items dealt to `m` takers in turn, taker `i`
gets `n / m`, and one more if it is among the first `n % m`. -/
theorem countP_range_mod_eq {m i : ℕ} (hi : i < m) (n : ℕ) :
    (List.range n).countP (fun j => j % m = i) = n / m + if i < n % m then 1 else 0 := by
  rw [countP_range_mod_eq_count hi, Nat.count_modEq_card n (by omega), Nat.mod_eq_of_lt hi]

/-- Two takers of a deal in turn get within one item of each other. -/
theorem countP_range_mod_le {m i k : ℕ} (hi : i < m) (hk : k < m) (n : ℕ) :
    (List.range n).countP (fun j => j % m = i) ≤
      (List.range n).countP (fun j => j % m = k) + 1 := by
  rw [countP_range_mod_eq hi, countP_range_mod_eq hk]
  split_ifs <;> omega

/-! ## Capped shares -/

section Capped

variable {q : ℕ}

/-- Shares of at most `q + 1` add up to at most `q` each, plus one for each share at the
cap. -/
theorem sum_le_of_le_succ : ∀ {cs : List ℕ}, (∀ c ∈ cs, c ≤ q + 1) →
    cs.sum ≤ cs.length * q + cs.count (q + 1) := by
  intro cs hcap
  induction cs with
  | nil => simp
  | cons c cs ih =>
    have hc := hcap c List.mem_cons_self
    have hrest := ih fun d hd => hcap d (List.mem_cons_of_mem _ hd)
    rw [List.sum_cons, List.length_cons, List.count_cons]
    by_cases h : c = q + 1
    · simp only [h, beq_self_eq_true, if_true]
      rw [Nat.succ_mul]
      omega
    · have hne : (c == q + 1) = false := by simpa using h
      rw [hne, if_neg (by simp), Nat.succ_mul]
      omega

/-- Shares of at least `q` add up to at least `q` each, plus one for each share at
`q + 1`. -/
theorem le_sum_of_le : ∀ {cs : List ℕ}, (∀ c ∈ cs, q ≤ c) →
    cs.length * q + cs.count (q + 1) ≤ cs.sum := by
  intro cs hfloor
  induction cs with
  | nil => simp
  | cons c cs ih =>
    have hc := hfloor c List.mem_cons_self
    have hrest := ih fun d hd => hfloor d (List.mem_cons_of_mem _ hd)
    rw [List.sum_cons, List.length_cons, List.count_cons, Nat.succ_mul]
    by_cases h : c = q + 1
    · simp only [h, beq_self_eq_true, if_true]
      omega
    · have hne : (c == q + 1) = false := by simpa using h
      rw [hne, if_neg (by simp)]
      omega

/-- Shares capped at `q + 1` that reach the bound of `sum_le_of_le_succ` are all at
least `q`. -/
theorem le_of_sum_ge : ∀ {cs : List ℕ}, (∀ c ∈ cs, c ≤ q + 1) →
    cs.length * q + cs.count (q + 1) ≤ cs.sum → ∀ c ∈ cs, q ≤ c := by
  intro cs hcap hsum
  induction cs with
  | nil => simp
  | cons c cs ih =>
    have hc := hcap c List.mem_cons_self
    have hcapRest : ∀ d ∈ cs, d ≤ q + 1 := fun d hd => hcap d (List.mem_cons_of_mem _ hd)
    have hrest := sum_le_of_le_succ hcapRest
    rw [List.sum_cons, List.length_cons, List.count_cons, Nat.succ_mul] at hsum
    -- the head is at least `q`, and the tail still reaches its bound
    have hhead : q ≤ c ∧ cs.length * q + cs.count (q + 1) ≤ cs.sum := by
      by_cases h : c = q + 1
      · rw [if_pos (by simp [h])] at hsum
        omega
      · rw [if_neg (by simpa using h)] at hsum
        omega
    intro d hd
    rcases List.mem_cons.1 hd with rfl | hd
    · exact hhead.1
    · exact ih hcapRest hhead.2 d hd

/-- `⌈n / m⌉` is `n / m`, plus one when `m` does not divide `n`. -/
theorem ceil_div_eq {n m : ℕ} (hm : 0 < m) :
    (n + m - 1) / m = n / m + if 0 < n % m then 1 else 0 := by
  have hlt := Nat.mod_lt n hm
  have hsplit : n + m - 1 = (n % m + m - 1) + m * (n / m) := by
    have := Nat.div_add_mod n m
    omega
  rw [hsplit, Nat.add_mul_div_left _ _ hm, Nat.add_comm]
  congr 1
  split_ifs with hr
  · exact Nat.div_eq_of_lt_le (by omega) (by omega)
  · exact Nat.div_eq_of_lt_le (by omega) (by omega)

end Capped

end Quota
