import GocbMeter.Histogram
import Mathlib.Analysis.SpecialFunctions.Log.Basic

/-!
# Where `RecordValue` puts a value

`ceilLog` is the code's `math.Ceil(math.Log(x) / ratioLog)` read exactly
(`ceilLog_eq_ceil_log_div`). From its two defining inequalities: the bin lies inside
`bins`, only values above `maxValue` reach the overflow bin, the bin grows with the
value, and every bin but the last is bounded by the label `BinAtPercentile` gives it.
Go bins `float64(value)`, which rounds above `2^53`; for shapes with `maxValue < 2^53` that
bin is the exact one (`binOf_float64OfNat`). The overflow label is not a bound:
`overflow_label_unsound`.
-/

namespace GocbMeter.Shape

variable (h : Shape)

theorem le_pow_ceilLog (x : ℚ) : x ≤ h.commonRatio ^ h.ceilLog x :=
  Nat.find_spec (h.exists_le_pow x)

theorem pow_lt_of_lt_ceilLog {x : ℚ} {n : ℕ} (hn : n < h.ceilLog x) : h.commonRatio ^ n < x :=
  not_le.mp (Nat.find_min (h.exists_le_pow x) hn)

theorem ceilLog_le_iff {x : ℚ} {n : ℕ} : h.ceilLog x ≤ n ↔ x ≤ h.commonRatio ^ n :=
  ⟨fun hn => (h.le_pow_ceilLog x).trans (pow_le_pow_right₀ h.one_lt_commonRatio.le hn),
    fun hx => Nat.find_le hx⟩

theorem ceilLog_mono {x y : ℚ} (hxy : x ≤ y) : h.ceilLog x ≤ h.ceilLog y :=
  (h.ceilLog_le_iff).mpr (hxy.trans (h.le_pow_ceilLog y))

/-- The exact reading of the code's bin formula. -/
theorem ceilLog_eq_ceil_log_div {x : ℚ} (hx : 1 ≤ x) :
    (h.ceilLog x : ℤ) = ⌈Real.log x / Real.log h.commonRatio⌉ := by
  have hr : (1 : ℝ) < h.commonRatio := by exact_mod_cast h.one_lt_commonRatio
  have hlog : 0 < Real.log h.commonRatio := Real.log_pos hr
  have hx0 : (0 : ℝ) < x := by exact_mod_cast zero_lt_one.trans_le hx
  have key (n : ℕ) : Real.log x ≤ n * Real.log h.commonRatio ↔ x ≤ h.commonRatio ^ n := by
    rw [← Real.log_pow, Real.log_le_log_iff hx0 (pow_pos (zero_lt_one.trans hr) n)]
    exact_mod_cast Iff.rfl
  symm
  rw [Int.ceil_eq_iff, div_le_iff₀ hlog, Int.cast_natCast]
  refine ⟨?_, (key _).mpr (h.le_pow_ceilLog x)⟩
  rcases Nat.eq_zero_or_eq_succ_pred (h.ceilLog x) with h0 | hs
  · rw [h0, Nat.cast_zero, zero_sub]
    exact (neg_one_lt_zero).trans_le
      (div_nonneg (Real.log_nonneg (by exact_mod_cast hx)) hlog.le)
  · rw [hs, Nat.cast_succ, add_sub_cancel_right, lt_div_iff₀ hlog, ← not_le, key]
    exact not_le.mpr (h.pow_lt_of_lt_ceilLog (by omega))

theorem ceilLog_eq_ceil_log_div_at_range :
    (1 : ℚ) ≤ 2000 ∧ (recorderShape.ceilLog 2000 : ℤ) =
      ⌈Real.log ((2000 : ℚ) : ℝ) / Real.log (recorderShape.commonRatio : ℝ)⌉ :=
  ⟨by norm_num, recorderShape.ceilLog_eq_ceil_log_div (by norm_num)⟩

theorem ceilLog_lt_numBuckets {v : ℚ} (hv : v ≤ h.maxValue) :
    h.ceilLog (v / h.startValue) < h.numBuckets - 1 := by
  have := h.ceilLog_mono (div_le_div_of_nonneg_right hv h.startValue_pos.le)
  unfold numBuckets
  omega

theorem binOf_lt_numBuckets (v : ℚ) : h.binOf v < h.numBuckets - 1 ∨
    h.maxValue < v ∧ h.binOf v = h.numBuckets - 1 := by
  unfold binOf
  split_ifs with hmax hs
  · exact .inr ⟨hmax, rfl⟩
  · exact .inl (by unfold numBuckets; omega)
  · exact .inl (h.ceilLog_lt_numBuckets (not_lt.mp hmax))

/-- The index `RecordValue` computes is inside `bins`, and it is the last index
only for values above `maxValue`. -/
theorem recordValue_index_in_bounds (lh : LatencyHistogram) (value : UInt64) :
    lh.shape.binOf value.toNat ≤ lh.bins.length - 1 ∧
      (lh.shape.binOf value.toNat = lh.bins.length - 1 → lh.shape.maxValue < value.toNat) := by
  rw [lh.length_bins]
  rcases lh.shape.binOf_lt_numBuckets value.toNat with hlt | ⟨hmax, _⟩
  · exact ⟨hlt.le, fun heq => absurd heq hlt.ne⟩
  · exact ⟨by omega, fun _ => hmax⟩

theorem binOf_lt_length (lh : LatencyHistogram) (v : ℚ) : lh.shape.binOf v < lh.bins.length := by
  have : 2 ≤ lh.shape.numBuckets := Nat.le_add_left 2 _
  rcases lh.shape.binOf_lt_numBuckets v with hlt | ⟨_, heq⟩ <;> rw [lh.length_bins] <;> omega

theorem binOf_mono {v w : ℚ} (hvw : v ≤ w) : h.binOf v ≤ h.binOf w := by
  by_cases hw : h.maxValue < w
  · have hw' : h.binOf w = h.numBuckets - 1 := if_pos hw
    rcases h.binOf_lt_numBuckets v with hlt | ⟨_, heq⟩ <;> omega
  · have hwle : w ≤ h.maxValue := not_lt.mp hw
    unfold binOf
    rw [if_neg (not_lt.mpr (hvw.trans hwle)), if_neg hw]
    split_ifs with hv hw' hw'
    · exact le_rfl
    · exact Nat.zero_le _
    · exact absurd (hvw.trans hw') hv
    · exact h.ceilLog_mono (div_le_div_of_nonneg_right hvw h.startValue_pos.le)

/-- Larger values never go to a lower bin, across all three branches. -/
theorem recordValue_bin_monotone {v w : UInt64} (hvw : v ≤ w) :
    h.binOf v.toNat ≤ h.binOf w.toNat :=
  h.binOf_mono (by exact_mod_cast hvw)

theorem recordValue_bin_monotone_at_boundary :
    (1000 : UInt64) ≤ 1001 ∧ recorderShape.binOf (1000 : UInt64).toNat ≤
      recorderShape.binOf (1001 : UInt64).toNat :=
  ⟨by decide, recorderShape.recordValue_bin_monotone (by decide)⟩

end GocbMeter.Shape

namespace GocbMeter

theorem recorderShape_numBuckets : recorderShape.numBuckets = 21 := by
  have h19 : recorderShape.ceilLog (recorderShape.maxValue / recorderShape.startValue) = 19 := by
    rw [Shape.ceilLog, Nat.find_eq_iff]
    refine ⟨by norm_num [recorderShape], fun n hn hle => ?_⟩
    have := hle.trans (pow_le_pow_right₀ (by norm_num [recorderShape]) (Nat.le_of_lt_succ hn))
    norm_num [recorderShape] at this
  simp [Shape.numBuckets, h19]

/-- A recorder's value of 2100000 goes to the overflow bin, and the label its snapshot
gives that bin, `"> 2216837.82"`, is false of it. -/
theorem overflow_label_unsound :
    recorderShape.binOf (2100000 : UInt64).toNat =
        ((newLatencyHistogram recorderShape).recordValue 2100000).bins.length - 1 ∧
      ((newLatencyHistogram recorderShape).recordValue 2100000).aggregateAndReset.1.binAtPercentile
        100 = .above ((3 / 2) ^ (19 : ℤ) * 1000) ∧
      ((2100000 : UInt64).toNat : ℚ) ≤ (3 / 2) ^ (19 : ℤ) * 1000 := by
  have hv : (2100000 : UInt64).toNat = 2100000 := rfl
  have hbin : recorderShape.binOf (2100000 : UInt64).toNat = 20 := by
    rw [Shape.binOf, if_pos (by norm_num [recorderShape, hv]), recorderShape_numBuckets]
  have hbins : ((newLatencyHistogram recorderShape).recordValue 2100000).bins =
      addOne (List.replicate 21 0) 20 := by
    simp only [LatencyHistogram.recordValue, hbin, newLatencyHistogram, recorderShape_numBuckets]
  refine ⟨by rw [hbins, hbin]; rfl, ?_, by norm_num [hv]⟩
  have hcum : (Sweep.run 21 (addOne (List.replicate 21 0) 20) Sweep.start).2.cum =
      List.replicate 20 0 ++ [1] := by decide
  have htot : (List.replicate 20 0 ++ [1]).getD ((List.replicate 20 0 ++ [1]).length - 1) 0 = 1 :=
    rfl
  have hthr : CumulativeLatencyHistogram.threshold 100 1 = 1 := by
    norm_num [CumulativeLatencyHistogram.threshold]
  have hidx : (List.replicate 20 0 ++ [1]).findIdx? (fun b => decide (1 ≤ b)) = some 20 := by
    decide
  simp only [LatencyHistogram.aggregateAndReset, hbins, Shape.snapshot, length_addOne,
    List.length_replicate, hcum, CumulativeLatencyHistogram.binAtPercentile,
    CumulativeLatencyHistogram.selectIndex, CumulativeLatencyHistogram.totalCount]
  rw [htot, hthr, hidx]
  norm_num [CumulativeLatencyHistogram.labelAt, LatencyHistogram.recordValue, newLatencyHistogram,
    recorderShape]

end GocbMeter
