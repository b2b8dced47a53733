import Rdkafka.Hdr.Histogram
import Rdkafka.Lib.NatSize
import Rdkafka.Lib.ListModify

/-!
# Where the HDR histogram counts a value

`bitLen` is the bit length `Nat.size` (`bitLen_eq_size`): each of its steps keeps the bits
counted plus the bits left.  For a histogram `rd_hdr_histogram_new` made (`HdrHistogram.WF`),
the bucket of a value is then the number of bits it has above the first bucket's, and its
counter lies in the counts array exactly when the value is below the smallest untrackable
value, `subBucketCount << (unitMagnitude + bucketCount - 1)`
(`countsIndexFor_lt_countsLen_iff`).  So `rd_hdr_histogram_record` counts exactly the values
below that bound (`hdrHistogramRecord_eq_one_iff`).

`rd_hdr_histogram_new` stops doubling the bound as soon as it is not below `maxValue`, so the
bound may be `maxValue` itself (`hdrHistogramNew_spec`), and then `maxValue`, the highest
trackable value, is not counted.
-/

set_option autoImplicit false

namespace Rdkafka

/-! ## `bitLen` is the bit length -/

/-- A step that shifts `k` bits off a value of at least `t = 2^(k-1)` keeps the bits counted
plus the bits left. -/
theorem bitLenStep_size {t k : ℕ} (ht : 2 * t = 2 ^ k) (p : ℕ × ℕ) :
    (bitLenStep t k p).2 + (bitLenStep t k p).1.size = p.2 + p.1.size := by
  unfold bitLenStep
  by_cases hx : t ≤ p.1
  · have hk : k ≤ p.1.size := by
      cases k with
      | zero => exact Nat.zero_le _
      | succ k => exact Nat.lt_size.2 (by rw [Nat.pow_succ] at ht; omega)
    rw [if_pos hx, Nat.size_shiftRight]
    dsimp only
    omega
  · rw [if_neg hx]

/-- A step leaves a value below its threshold when it had fewer than `k` bits above it. -/
theorem bitLenStep_lt {t k : ℕ} {p : ℕ × ℕ} (hx : p.1 < t * 2 ^ k) :
    (bitLenStep t k p).1 < t := by
  unfold bitLenStep
  by_cases h : t ≤ p.1
  · rw [if_pos h, Nat.shiftRight_eq_div_pow, Nat.div_lt_iff_lt_mul (Nat.two_pow_pos k)]
    exact hx
  · rw [if_neg h]
    exact Nat.lt_of_not_le h

/-- The loop of 16-bit shifts is the same step, repeated while fuel lasts. -/
theorem bitLenLoop_spec : ∀ (fuel x n : ℕ), x < 0x8000 * 2 ^ (16 * fuel) →
    (bitLenLoop fuel x n).1 < 0x8000 ∧
      (bitLenLoop fuel x n).2 + (bitLenLoop fuel x n).1.size = n + x.size
  | 0, x, n, hx => ⟨show x < 0x8000 by simpa using hx, rfl⟩
  | fuel + 1, x, n, hx => by
    have hstep := bitLenStep_size (t := 0x8000) (k := 16) rfl (x, n)
    rw [bitLenLoop]
    by_cases h : 0x8000 ≤ x
    · rw [if_pos h]
      simp only [bitLenStep, if_pos h] at hstep
      have hbound : x >>> 16 < 0x8000 * 2 ^ (16 * fuel) := by
        rw [Nat.shiftRight_eq_div_pow, Nat.div_lt_iff_lt_mul (Nat.two_pow_pos 16)]
        rw [Nat.mul_add, Nat.pow_add, ← Nat.mul_assoc] at hx
        exact hx
      obtain ⟨hlt, hsize⟩ := bitLenLoop_spec fuel (x >>> 16) (n + 16) hbound
      exact ⟨hlt, by omega⟩
    · rw [if_neg h]
      exact ⟨Nat.lt_of_not_le h, rfl⟩

/-- **`bitLen` counts bits.** -/
theorem bitLen_eq_size {x : ℕ} (hx : x < 2 ^ 64) : bitLen x = x.size := by
  obtain ⟨hlt, hsize⟩ := bitLenLoop_spec 4 x 0 (by omega)
  have h₁ := bitLenStep_size (t := 0x80) (k := 8) rfl (bitLenLoop 4 x 0)
  have h₂ := bitLenStep_size (t := 0x8) (k := 4) rfl
    (bitLenStep 0x80 8 (bitLenLoop 4 x 0))
  have h₃ := bitLenStep_size (t := 0x2) (k := 2) rfl
    (bitLenStep 0x8 4 (bitLenStep 0x80 8 (bitLenLoop 4 x 0)))
  -- the three steps leave a value below `2`, whose size is what the last test adds
  have hlast :
      (bitLenStep 0x2 2 (bitLenStep 0x8 4 (bitLenStep 0x80 8 (bitLenLoop 4 x 0)))).1 < 2 :=
    bitLenStep_lt (bitLenStep_lt (bitLenStep_lt (by omega)))
  rw [bitLen]
  generalize (bitLenStep 0x2 2 (bitLenStep 0x8 4 (bitLenStep 0x80 8 (bitLenLoop 4 x 0)))) = p at *
  obtain ⟨y, n⟩ := p
  dsimp only at hlast h₃ ⊢
  rcases (by omega : y = 0 ∨ y = 1) with rfl | rfl
  · simp only [Nat.size_zero] at h₃
    rw [if_neg (by decide)]
    omega
  · simp only [Nat.size_one] at h₃
    rw [if_pos (Nat.le_refl 1)]
    omega

/-! ## The histograms `rd_hdr_histogram_new` makes -/

/-- The shape `rd_hdr_histogram_new` gives a histogram and `rd_hdr_histogram_record` keeps:
buckets of `2^(m+1)` counters, of which `2^m` are stored per bucket and `2^(m+1)` for
bucket `0`, a mask of `m + 1` ones above the unit, and counts that sum to the total. -/
structure HdrHistogram.WF (h : HdrHistogram) : Prop where
  subBucketCount_eq : h.subBucketCount = 2 ^ (h.subBucketHalfCountMagnitude + 1)
  subBucketHalfCount_eq : h.subBucketHalfCount = 2 ^ h.subBucketHalfCountMagnitude
  subBucketMask_eq : h.subBucketMask = (h.subBucketCount - 1) <<< h.unitMagnitude
  subBucketMask_lt : h.subBucketMask < 2 ^ 63
  bucketCount_pos : 0 < h.bucketCount
  countsLen_eq : h.countsLen = (h.bucketCount + 1) * h.subBucketHalfCount
  counts_length : h.counts.length = h.countsLen
  totalCount_eq : h.totalCount = h.counts.sum
  significantFigures_le : 10 ^ h.significantFigures ≤ 2 ^ h.subBucketHalfCountMagnitude

/-- The smallest value a histogram cannot count: `smallestUntrackableValue` of
`rd_hdr_histogram_new`, `subBucketCount << unitMagnitude` doubled for each bucket after the
first. -/
def HdrHistogram.smallestUntrackableValue (h : HdrHistogram) : ℕ :=
  h.subBucketCount <<< (h.unitMagnitude + (h.bucketCount - 1))

namespace HdrHistogram.WF

variable {h : HdrHistogram} (hw : h.WF)
include hw

theorem size_subBucketMask :
    h.subBucketMask.size = h.subBucketHalfCountMagnitude + 1 + h.unitMagnitude := by
  rw [hw.subBucketMask_eq, hw.subBucketCount_eq,
    Nat.size_shiftLeft (by have := Nat.two_pow_pos (h.subBucketHalfCountMagnitude + 1); omega),
    Nat.size_two_pow_sub_one]

/-- The bucket of a value is the number of its bits above the first bucket's. -/
theorem getBucketIndex_eq {v : ℕ} (hv : v < 2 ^ 63) :
    h.getBucketIndex v = v.size - (h.subBucketHalfCountMagnitude + 1 + h.unitMagnitude) := by
  have hor : v ||| h.subBucketMask < 2 ^ 64 :=
    Nat.or_lt_two_pow (by omega) (by have := hw.subBucketMask_lt; omega)
  rw [HdrHistogram.getBucketIndex, bitLen_eq_size hor, Nat.size_or, hw.size_subBucketMask]
  omega

/-- The counter of a value within its bucket has `m + 1` bits, the top one set past
bucket `0`. -/
theorem getSubBucketIdx_bounds {v : ℕ} (hv : v < 2 ^ 63) :
    h.getSubBucketIdx v (h.getBucketIndex v) < 2 ^ (h.subBucketHalfCountMagnitude + 1) ∧
      (0 < h.getBucketIndex v →
        2 ^ h.subBucketHalfCountMagnitude ≤ h.getSubBucketIdx v (h.getBucketIndex v)) := by
  have hsize : (h.getSubBucketIdx v (h.getBucketIndex v)).size =
      v.size - (h.getBucketIndex v + h.unitMagnitude) := Nat.size_shiftRight _ _
  rw [hw.getBucketIndex_eq hv] at hsize ⊢
  refine ⟨Nat.size_le.1 (by omega), fun hb => Nat.lt_size.1 (by omega)⟩

/-- The counter of a value: `b * 2^m + s` for bucket `b` and counter `s` in it. -/
theorem countsIndexFor_eq (v : ℕ) :
    h.countsIndexFor v = ((h.getBucketIndex v * 2 ^ h.subBucketHalfCountMagnitude +
      h.getSubBucketIdx v (h.getBucketIndex v) : ℕ) : ℤ) := by
  rw [HdrHistogram.countsIndexFor, HdrHistogram.countsIndex, hw.subBucketHalfCount_eq,
    Nat.shiftLeft_eq, Nat.succ_mul]
  push_cast
  omega

/-- **Where a value is counted.**  A value has a counter in the array exactly when it is
below the smallest untrackable value. -/
theorem countsIndexFor_lt_countsLen_iff {v : ℕ} (hv : v < 2 ^ 63) :
    h.countsIndexFor v < h.countsLen ↔ v < h.smallestUntrackableValue := by
  obtain ⟨hsub, hsub'⟩ := hw.getSubBucketIdx_bounds hv
  have hb := hw.getBucketIndex_eq hv
  have hB := hw.bucketCount_pos
  rw [hw.countsIndexFor_eq, hw.countsLen_eq, hw.subBucketHalfCount_eq,
    HdrHistogram.smallestUntrackableValue, hw.subBucketCount_eq, Nat.shiftLeft_eq,
    ← Nat.pow_add, ← Nat.size_le, Int.ofNat_lt]
  rw [Nat.pow_succ] at hsub
  generalize h.getBucketIndex v = b at *
  generalize h.getSubBucketIdx v b = s at *
  generalize 2 ^ h.subBucketHalfCountMagnitude = H at *
  rw [Nat.succ_mul]
  rcases Nat.eq_zero_or_pos b with rfl | hb0
  · -- bucket `0` is always there, and holds the values below `2^(m+1)` units
    have h2 : 2 * H ≤ h.bucketCount * H + H := by
      have := Nat.mul_le_mul_right H hB
      omega
    constructor <;> intro _ <;> omega
  · -- a later bucket `b` is there exactly when `b < bucketCount`
    have hHs := hsub' hb0
    constructor
    · intro hlt
      have hbB : b < h.bucketCount := Nat.lt_of_not_le fun hge => by
        have := Nat.mul_le_mul_right H hge
        omega
      omega
    · intro hsz
      have := Nat.mul_le_mul_right H (show b + 1 ≤ h.bucketCount by omega)
      rw [Nat.succ_mul] at this
      omega

/-- The counter of a value is never in the lower half of bucket `0`, the half left out. -/
theorem countsIndexFor_nonneg (v : ℕ) : 0 ≤ h.countsIndexFor v := by
  rw [hw.countsIndexFor_eq]
  exact Int.natCast_nonneg _

end HdrHistogram.WF

/-- **What `rd_hdr_histogram_record` counts.**  A histogram `rd_hdr_histogram_new` made counts
a value, and returns `1`, exactly when the value is below the smallest untrackable value. -/
theorem hdrHistogramRecord_eq_one_iff {h : HdrHistogram} (hw : h.WF) {v : ℕ}
    (hv : v < 2 ^ 63) :
    (hdrHistogramRecord h v).2 = 1 ↔ v < h.smallestUntrackableValue := by
  rw [← hw.countsIndexFor_lt_countsLen_iff hv]
  have h0 := hw.countsIndexFor_nonneg v
  unfold hdrHistogramRecord
  by_cases hlt : h.countsIndexFor v < h.countsLen
  · rw [if_neg (by omega)]
    exact iff_of_true rfl hlt
  · rw [if_pos (by omega)]
    exact iff_of_false Nat.zero_ne_one hlt

/-! ## `rd_hdr_histogram_new` -/

/-- A left shift whose result fits is the product. -/
theorem i64Shl_eq_some {a n : ℕ} (hn : n < 64) (hlt : a * 2 ^ n < 2 ^ 63) :
    i64Shl a n = some (a <<< n) := by
  have hcast : (a : ℤ) * 2 ^ (n : ℤ).toNat = ((a * 2 ^ n : ℕ) : ℤ) := by
    rw [Int.toNat_natCast]
    push_cast
    rfl
  have hin : CInt.InRange 64 ((a : ℤ) * 2 ^ (n : ℤ).toNat) := by
    rw [hcast]
    exact ⟨by omega, by exact_mod_cast hlt⟩
  rw [i64Shl, CInt.shiftLeft, if_pos ⟨Int.natCast_nonneg _, by omega, Int.natCast_nonneg _⟩,
    CInt.ofExact_of_inRange hin, Option.map_some, hcast, Int.toNat_natCast, Nat.shiftLeft_eq]

/-- **The sizing loop ends** while the doublings cannot overflow: it doubles the bound `k`
times, to the first one not below `maxValue`. -/
theorem untrackableLoop_spec {maxValue : ℕ} (hmax : maxValue ≤ 2 ^ 62) (fuel : ℕ) :
    ∀ (s b : ℕ), 0 < s → maxValue ≤ s * 2 ^ fuel →
      ∃ k, untrackableLoop maxValue (fuel + 1) s b = some (s * 2 ^ k, b + k) ∧
        maxValue ≤ s * 2 ^ k ∧ (k = 0 ∨ s * 2 ^ k < 2 * maxValue) := by
  -- each round doubles `s` and spends one unit of fuel, which keeps `s * 2 ^ fuel`
  induction fuel with
  | zero =>
    intro s b _ hfuel
    rw [Nat.pow_zero, Nat.mul_one] at hfuel
    refine ⟨0, ?_, by omega, .inl rfl⟩
    rw [untrackableLoop, if_neg (Nat.not_lt_of_le hfuel), Nat.pow_zero, Nat.mul_one,
      Nat.add_zero]
  | succ fuel ih =>
    intro s b hs hfuel
    by_cases hlt : s < maxValue
    · obtain ⟨k, hrun, hle, hk⟩ :=
        ih (s * 2) (b + 1) (by omega) (by rw [Nat.mul_assoc, ← Nat.pow_succ']; exact hfuel)
      have hshl : i64Shl s 1 = some (s * 2) := by
        rw [i64Shl_eq_some (by decide) (by omega), Nat.shiftLeft_eq, Nat.pow_one]
      refine ⟨k + 1, ?_, ?_, .inr ?_⟩
      · rw [untrackableLoop, if_pos hlt, hshl, Option.bind_some, hrun, Nat.pow_succ',
          ← Nat.mul_assoc, Nat.add_right_comm, Nat.add_assoc]
      · rw [Nat.pow_succ', ← Nat.mul_assoc]
        exact hle
      · rw [Nat.pow_succ', ← Nat.mul_assoc]
        rcases hk with rfl | hk
        · omega
        · exact hk
    · refine ⟨0, ?_, by omega, .inl rfl⟩
      rw [untrackableLoop, if_neg hlt, Nat.pow_zero, Nat.mul_one, Nat.add_zero]

/-- The magnitude of half a bucket that `significantFigures` ask for:
`ceil(log2(2 * 10^sf)) - 1` is `floor(log2(2 * 10^sf - 1))`. -/
theorem log2_significantFigures_bounds {sf : ℕ} (hsf : sf ≤ 5) :
    10 ^ sf ≤ 2 ^ Nat.log2 (2 * 10 ^ sf - 1) ∧ Nat.log2 (2 * 10 ^ sf - 1) < 18 := by
  have hpos := Nat.pow_pos (n := sf) (show 0 < 10 by decide)
  have hle : 10 ^ sf ≤ 10 ^ 5 := Nat.pow_le_pow_right (by decide) hsf
  have hself := @Nat.lt_log2_self (2 * 10 ^ sf - 1)
  rw [Nat.pow_succ] at hself
  exact ⟨by omega, (Nat.log2_lt (by omega)).2 (by omega)⟩

/-- **What `rd_hdr_histogram_new` makes.**  For significant figures `1 .. 5`, a `minValue`
below `2^44` and a `maxValue` up to `2^62` no shift overflows, and the histogram has the shape
`HdrHistogram.WF`.  Its smallest untrackable value is the first doubling of
`subBucketCount << unitMagnitude` that is not below `maxValue`: it may be `maxValue` itself. -/
theorem hdrHistogramNew_spec {minValue maxValue sf : ℕ} (hsf1 : 1 ≤ sf) (hsf5 : sf ≤ 5)
    (hmin : minValue < 2 ^ 44) (hmax : maxValue ≤ 2 ^ 62) :
    ∃ h, hdrHistogramNew minValue maxValue sf = some (some h) ∧ h.WF ∧
      h.highestTrackableValue = maxValue ∧ maxValue ≤ h.smallestUntrackableValue ∧
      (h.bucketCount = 1 ∨ h.smallestUntrackableValue < 2 * maxValue) := by
  obtain ⟨hfig, hm18⟩ := log2_significantFigures_bounds hsf5
  have hu44 : Nat.log2 minValue < 44 := by
    rcases Nat.eq_zero_or_pos minValue with h0 | h0
    · rw [h0, Nat.log2_zero]
      decide
    · exact (Nat.log2_lt (by omega)).2 hmin
  rw [hdrHistogramNew, if_neg (by omega)]
  simp only []
  generalize Nat.log2 (2 * 10 ^ sf - 1) = m at *
  generalize Nat.log2 minValue = u at *
  have hhalf : max (m + 1) 1 - 1 = m := by omega
  have hhalfCount : 2 ^ (m + 1) / 2 = 2 ^ m := by
    rw [Nat.pow_succ, Nat.mul_div_cancel _ (by decide)]
  -- `subBucketCount << unitMagnitude` is at most `2^18 * 2^43`
  have hfit : 2 ^ (m + 1) * 2 ^ u ≤ 2 ^ 61 :=
    calc 2 ^ (m + 1) * 2 ^ u ≤ 2 ^ 18 * 2 ^ 43 :=
          Nat.mul_le_mul (Nat.pow_le_pow_right (by decide) hm18)
            (Nat.pow_le_pow_right (by decide) (by omega))
      _ = 2 ^ 61 := by rw [← Nat.pow_add]
  have hmask : (2 ^ (m + 1) - 1) * 2 ^ u < 2 ^ 63 :=
    Nat.lt_of_le_of_lt (Nat.le_trans (Nat.mul_le_mul_right _ (Nat.sub_le _ _)) hfit)
      (by decide)
  have hpos : 0 < 2 ^ (m + 1) <<< u := by
    rw [Nat.shiftLeft_eq]
    exact Nat.mul_pos (Nat.two_pow_pos _) (Nat.two_pow_pos _)
  obtain ⟨k, hrun, hle, hk⟩ := untrackableLoop_spec hmax 63 (2 ^ (m + 1) <<< u) 1 hpos
    (Nat.le_trans hmax (Nat.le_trans (by decide) (Nat.mul_le_mul_right _ hpos)))
  have hS : 2 ^ (m + 1) <<< (u + (1 + k - 1)) = (2 ^ (m + 1) <<< u) * 2 ^ k := by
    rw [Nat.add_sub_cancel_left, Nat.shiftLeft_eq, Nat.shiftLeft_eq, Nat.pow_add 2 u k,
      Nat.mul_assoc]
  rw [hhalf, i64Shl_eq_some (by omega) hmask, Option.bind_some,
    i64Shl_eq_some (by omega) (Nat.lt_of_le_of_lt hfit (by decide)), Option.bind_some, hrun,
    Option.map_some]
  refine ⟨_, rfl, ⟨rfl, hhalfCount, rfl, ?_, show 0 < 1 + k by omega, rfl,
    List.length_replicate, by simp, hfig⟩, rfl, ?_, ?_⟩
  · rw [Nat.shiftLeft_eq]
    exact hmask
  · rw [HdrHistogram.smallestUntrackableValue]
    dsimp only
    rw [hS]
    exact hle
  · rw [HdrHistogram.smallestUntrackableValue]
    dsimp only
    rw [hS]
    rcases hk with rfl | hk
    · exact .inl rfl
    · exact .inr hk

/-- **Which values a new histogram counts.**  Every value below `maxValue` is counted, and
`maxValue`, the highest trackable value, only when the sizing loop went past it. -/
theorem hdrHistogramNew_record {minValue maxValue sf : ℕ} (hsf1 : 1 ≤ sf) (hsf5 : sf ≤ 5)
    (hmin : minValue < 2 ^ 44) (hmax : maxValue ≤ 2 ^ 62) :
    ∃ h, hdrHistogramNew minValue maxValue sf = some (some h) ∧
      (∀ v < maxValue, (hdrHistogramRecord h v).2 = 1) ∧
      ((hdrHistogramRecord h maxValue).2 = 1 ↔ maxValue < h.smallestUntrackableValue) := by
  obtain ⟨h, hnew, hw, -, hle, -⟩ := hdrHistogramNew_spec hsf1 hsf5 hmin hmax
  have h63 : maxValue < 2 ^ 63 := Nat.lt_of_le_of_lt hmax (by decide)
  refine ⟨h, hnew, fun v hv => ?_, hdrHistogramRecord_eq_one_iff hw h63⟩
  exact (hdrHistogramRecord_eq_one_iff hw (Nat.lt_trans hv h63)).2 (Nat.lt_of_lt_of_le hv hle)

/-- The histogram of the unit tests, `rd_hdr_histogram_new(1, 10000000, 3)`, counts every value
below ten million. -/
theorem hdrHistogramNew_record_unittest :
    ∃ h, hdrHistogramNew 1 10000000 3 = some (some h) ∧
      (∀ v < 10000000, (hdrHistogramRecord h v).2 = 1) ∧
      ((hdrHistogramRecord h 10000000).2 = 1 ↔ 10000000 < h.smallestUntrackableValue) :=
  hdrHistogramNew_record (by decide) (by decide) (by decide) (by decide)

/-- `rd_hdr_histogram_new(1, 32, 1)` sizes the histogram up to a smallest untrackable value
of `32`, its highest trackable value, which `rd_hdr_histogram_record` then rejects. -/
theorem hdrHistogramRecord_highest_trackable_rejected :
    (hdrHistogramNew 1 32 1).map (Option.map fun h =>
      (h.highestTrackableValue, h.smallestUntrackableValue, (hdrHistogramRecord h 32).2)) =
      some (some (32, 32, 0)) := by
  decide +kernel

end Rdkafka
