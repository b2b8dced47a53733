import Rdkafka.Lib.CInt
import Mathlib.Data.Int.Notation
import Mathlib.Algebra.Group.Nat.Defs

/-!
# The HDR histogram

This file models `src/rdhdrhistogram.c`, the HDR histogram that `rd_avg_t` keeps latencies
in.  A histogram covers the values up to its highest trackable value with buckets of
`subBucketCount` counters each: bucket `0` counts the values below `subBucketCount` units, one
unit apart, and each later bucket twice the range of the one before with the same number of
counters, of which the lower half would repeat the bucket before and is left out of the
counts array.  `rd_hdr_histogram_record` finds a value's counter from the bit length of the
value or-ed with `subBucketMask`, and `rd_hdr_histogram_quantile` walks the counters in order
of value with the iterator `rd_hdr_iter_next`.

Values are the non-negative `int64_t` values the histogram is used with; `rd_hdr_histogram_new`
computes its magnitudes with `pow`, `log2`, `ceil` and `floor` on doubles, and the model takes
the exact values.  The doubles give them for the significant figures `1` to `5`, and for a
`minValue` below `2^44`, the bound the results on `rd_hdr_histogram_new` assume: there `log2`
of a value stays many rounding steps below the next integer.  Further up it need not, and
`log2` of `2^49 - 1` as a double is `49.0`, whose `floor` is one more than the model's
`Nat.log2`.  A left shift of an `int64_t` that overflows is undefined, `none`.
-/

set_option autoImplicit false

namespace Rdkafka

/-- `(int64_t)a << n` for `a ≥ 0`: `none` when the result does not fit. -/
def i64Shl (a n : ℕ) : Option ℕ := (CInt.shiftLeft 64 a n).map Int.toNat

/-! ## Bit length -/

/-- The `for (; x >= 0x8000; x >>= 16) n += 16` loop of `bitLen`; a value below `2^64` takes
four rounds at most, which is the fuel it gets. -/
def bitLenLoop : ℕ → ℕ → ℕ → ℕ × ℕ
  | 0, x, n => (x, n)
  | fuel + 1, x, n => if 0x8000 ≤ x then bitLenLoop fuel (x >>> 16) (n + 16) else (x, n)

/-- One of the three `if (x >= t) { x >>= k; n += k; }` steps of `bitLen`. -/
def bitLenStep (t k : ℕ) (p : ℕ × ℕ) : ℕ × ℕ :=
  if t ≤ p.1 then (p.1 >>> k, p.2 + k) else p

/-- `bitLen(x)` for `x ≥ 0`. -/
def bitLen (x : ℕ) : ℕ :=
  let p := bitLenStep 0x2 2 (bitLenStep 0x8 4 (bitLenStep 0x80 8 (bitLenLoop 4 x 0)))
  if 0x1 ≤ p.1 then p.2 + 1 else p.2

/-! ## The histogram -/

/-- `rd_hdr_histogram_t`, without `allocatedSize`, which only the tuning of the allocation
reads. -/
structure HdrHistogram where
  lowestTrackableValue : ℕ
  highestTrackableValue : ℕ
  unitMagnitude : ℕ
  significantFigures : ℕ
  subBucketHalfCountMagnitude : ℕ
  subBucketHalfCount : ℕ
  subBucketMask : ℕ
  subBucketCount : ℕ
  bucketCount : ℕ
  countsLen : ℕ
  totalCount : ℕ
  /-- `counts[0 .. countsLen)`. -/
  counts : List ℕ
  outOfRangeCount : ℕ
  lowestOutOfRange : ℕ
  highestOutOfRange : ℕ
  deriving DecidableEq, Repr

/-- The `while (smallestUntrackableValue < maxValue)` loop of `rd_hdr_histogram_new`: the
smallest untrackable value and the buckets needed.  Every round doubles a value of at least
one, so an `int64_t` allows fewer than 64 rounds, the fuel. -/
def untrackableLoop (maxValue : ℕ) : ℕ → ℕ → ℕ → Option (ℕ × ℕ)
  | 0, _, _ => none
  | fuel + 1, smallestUntrackableValue, bucketsNeeded =>
    if smallestUntrackableValue < maxValue then
      (i64Shl smallestUntrackableValue 1).bind fun s =>
        untrackableLoop maxValue fuel s (bucketsNeeded + 1)
    else some (smallestUntrackableValue, bucketsNeeded)

/-- `rd_hdr_histogram_new(minValue, maxValue, significantFigures)`: the inner `none` is
`NULL`, for significant figures outside `1 .. 5`; the outer `none` an overflowing shift. -/
def hdrHistogramNew (minValue maxValue significantFigures : ℕ) : Option (Option HdrHistogram) :=
  if significantFigures < 1 ∨ 5 < significantFigures then some none
  else
    let largestValueWithSingleUnitResolution := 2 * 10 ^ significantFigures
    -- `ceil(log2(largestValueWithSingleUnitResolution))`
    let subBucketCountMagnitude := Nat.log2 (largestValueWithSingleUnitResolution - 1) + 1
    let subBucketHalfCountMagnitude := max subBucketCountMagnitude 1 - 1
    -- `RD_MAX(floor(log2(minValue)), 0)`, also `0` for `minValue = 0`
    let unitMagnitude := Nat.log2 minValue
    let subBucketCount := 2 ^ (subBucketHalfCountMagnitude + 1)
    let subBucketHalfCount := subBucketCount / 2
    (i64Shl (subBucketCount - 1) unitMagnitude).bind fun subBucketMask =>
    (i64Shl subBucketCount unitMagnitude).bind fun smallestUntrackableValue =>
    (untrackableLoop maxValue 64 smallestUntrackableValue 1).map fun (_, bucketsNeeded) =>
      let bucketCount := bucketsNeeded
      let countsLen := (bucketCount + 1) * (subBucketCount / 2)
      some ⟨minValue, maxValue, unitMagnitude, significantFigures, subBucketHalfCountMagnitude,
        subBucketHalfCount, subBucketMask, subBucketCount, bucketCount, countsLen, 0,
        List.replicate countsLen 0, 0, minValue, maxValue⟩

namespace HdrHistogram

variable (h : HdrHistogram)

/-- `rd_hdr_countsIndex(hdr, bucketIdx, subBucketIdx)`: the offset in the bucket is negative
for the lower half of bucket `0`. -/
def countsIndex (bucketIdx subBucketIdx : ℕ) : ℤ :=
  (((bucketIdx + 1) <<< h.subBucketHalfCountMagnitude : ℕ) : ℤ) +
    ((subBucketIdx : ℤ) - h.subBucketHalfCount)

/-- `rd_hdr_getBucketIndex(hdr, v)`.  The subtraction never goes below zero: `subBucketMask`
has as many bits as it takes off. -/
def getBucketIndex (v : ℕ) : ℕ :=
  bitLen (v ||| h.subBucketMask) - h.unitMagnitude - (h.subBucketHalfCountMagnitude + 1)

/-- `rd_hdr_getSubBucketIdx(hdr, v, idx)`. -/
def getSubBucketIdx (v idx : ℕ) : ℕ := v >>> (idx + h.unitMagnitude)

/-- `rd_hdr_valueFromIndex(hdr, bucketIdx, subBucketIdx)`. -/
def valueFromIndex (bucketIdx subBucketIdx : ℕ) : ℕ :=
  subBucketIdx <<< (bucketIdx + h.unitMagnitude)

/-- `rd_hdr_sizeOfEquivalentValueRange(hdr, v)`. -/
def sizeOfEquivalentValueRange (v : ℕ) : ℕ :=
  let bucketIdx := h.getBucketIndex v
  let subBucketIdx := h.getSubBucketIdx v bucketIdx
  let adjustedBucket := if h.subBucketCount ≤ subBucketIdx then bucketIdx + 1 else bucketIdx
  1 <<< (h.unitMagnitude + adjustedBucket)

/-- `rd_hdr_lowestEquivalentValue(hdr, v)`. -/
def lowestEquivalentValue (v : ℕ) : ℕ :=
  let bucketIdx := h.getBucketIndex v
  h.valueFromIndex bucketIdx (h.getSubBucketIdx v bucketIdx)

/-- `rd_hdr_nextNonEquivalentValue(hdr, v)`. -/
def nextNonEquivalentValue (v : ℕ) : ℕ :=
  h.lowestEquivalentValue v + h.sizeOfEquivalentValueRange v

/-- `rd_hdr_highestEquivalentValue(hdr, v)`. -/
def highestEquivalentValue (v : ℕ) : ℕ := h.nextNonEquivalentValue v - 1

/-- `rd_hdr_countsIndexFor(hdr, v)`. -/
def countsIndexFor (v : ℕ) : ℤ :=
  let bucketIdx := h.getBucketIndex v
  h.countsIndex bucketIdx (h.getSubBucketIdx v bucketIdx)

end HdrHistogram

/-- `rd_hdr_histogram_record(hdr, v)`: the histogram, and `1` when `v` was counted or `0`
when it is out of range. -/
def hdrHistogramRecord (h : HdrHistogram) (v : ℕ) : HdrHistogram × ℕ :=
  let idx := h.countsIndexFor v
  if idx < 0 ∨ h.countsLen ≤ idx then
    ({ h with
      outOfRangeCount := h.outOfRangeCount + 1
      highestOutOfRange := if v > h.highestOutOfRange then v else h.highestOutOfRange
      lowestOutOfRange := if v < h.lowestOutOfRange then v else h.lowestOutOfRange }, 0)
  else
    ({ h with counts := h.counts.modify idx.toNat (· + 1), totalCount := h.totalCount + 1 }, 1)

/-! ## Quantiles -/

/-- The iterator `rd_hdr_iter_t`. -/
structure HdrIter where
  bucketIdx : ℕ
  subBucketIdx : ℤ
  countAtIdx : ℕ
  countToIdx : ℕ
  valueFromIdx : ℕ
  highestEquivalentValue : ℕ
  deriving DecidableEq, Repr

/-- `RD_HDR_ITER_INIT(hdr)`. -/
def hdrIterInit : HdrIter := ⟨0, -1, 0, 0, 0, 0⟩

/-- `rd_hdr_iter_next(it)`: the iterator at the next counter, `none` for `0`. -/
def hdrIterNext (h : HdrHistogram) (it : HdrIter) : Option HdrIter :=
  if h.totalCount ≤ it.countToIdx then none
  else
    let (bucketIdx, subBucketIdx) :=
      if (h.subBucketCount : ℤ) ≤ it.subBucketIdx + 1 then
        (it.bucketIdx + 1, (h.subBucketHalfCount : ℤ))
      else (it.bucketIdx, it.subBucketIdx + 1)
    if h.bucketCount ≤ bucketIdx then none
    else
      let countAtIdx := h.counts.getD (h.countsIndex bucketIdx subBucketIdx.toNat).toNat 0
      let valueFromIdx := h.valueFromIndex bucketIdx subBucketIdx.toNat
      some ⟨bucketIdx, subBucketIdx, countAtIdx, it.countToIdx + countAtIdx, valueFromIdx,
        h.highestEquivalentValue valueFromIdx⟩

/-- The `while (rd_hdr_iter_next(&it))` loop of `rd_hdr_histogram_quantile`.  The iterator
stops after the `countsLen` counters, so one more round than that is enough fuel. -/
def quantileLoop (h : HdrHistogram) (countAtPercentile : ℤ) : ℕ → HdrIter → ℕ → ℕ
  | 0, _, _ => 0
  | fuel + 1, it, total =>
    match hdrIterNext h it with
    | none => 0
    | some it =>
      let total := total + it.countAtIdx
      if countAtPercentile ≤ total then h.highestEquivalentValue it.valueFromIdx
      else quantileLoop h countAtPercentile fuel it total

/-- `rd_hdr_histogram_quantile(hdr, q)`, from `countAtPercentile`, the count that
`(int64_t)((q / 100.0) * totalCount + 0.5)` gives for `q` at most `100`. -/
def hdrHistogramQuantile (h : HdrHistogram) (countAtPercentile : ℤ) : ℕ :=
  quantileLoop h countAtPercentile (h.countsLen + 1) hdrIterInit 0

end Rdkafka
