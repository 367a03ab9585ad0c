import GocbMeter.Snapshot

/-!
# One histogram under concurrent use

Any number of goroutines call `RecordValue`, each call one atomic increment, while the
emitting goroutine runs `AggregateAndReset`, each iteration of its loop one atomic swap
and the others local. `HistStep` is one such atomic action, in any order. Two ghost
fields count the recordings made and keep the snapshots returned.

`HistInv` holds in every reachable state with fewer than `2^64` recordings: nothing is
lost or counted twice (`conserve`), and every snapshot is non-decreasing. With
`selectIndex_some_mono` this is `snapshot_sorted_and_scan_mono`.
-/

namespace GocbMeter

structure HistState where
  hist : LatencyHistogram
  sweep : Option Sweep
  recorded : ℕ
  returned : List CumulativeLatencyHistogram

/-- What the emitter holds of the counts it has swapped out of the running sweep. -/
def pending : Option Sweep → ℕ
  | some sw => sw.countSoFar
  | none => 0

inductive HistStep : HistState → HistState → Prop
  | record (s : HistState) (v : UInt64) :
      HistStep s { s with hist := s.hist.recordValue v, recorded := s.recorded + 1 }
  | begin (s : HistState) (idle : s.sweep = none) :
      HistStep s { s with sweep := some .start }
  | swap (s : HistState) (sw : Sweep) (running : s.sweep = some sw)
      (inside : sw.next < s.hist.bins.length) :
      HistStep s { s with hist := (s.hist.swapBin sw).1, sweep := some (s.hist.swapBin sw).2 }
  | finish (s : HistState) (sw : Sweep) (running : s.sweep = some sw)
      (done : sw.next = s.hist.bins.length) :
      HistStep s { s with sweep := none, returned := s.returned ++ [s.hist.shape.snapshot sw.cum] }

def HistState.init (shape : Shape) : HistState := ⟨newLatencyHistogram shape, none, 0, []⟩

inductive HistReachable (shape : Shape) : HistState → Prop
  | init : HistReachable shape (.init shape)
  | step {s t : HistState} : HistReachable shape s → HistStep s t → HistReachable shape t

/-- A sweep part way through: the entries written so far are the running sums, ending at
`countSoFar`. -/
structure SweepOk (len : ℕ) (sw : Sweep) : Prop where
  next_le : sw.next ≤ len
  length_cum : sw.cum.length = sw.next
  sorted : sw.cum.Sorted (· ≤ ·)
  le_countSoFar : ∀ a ∈ sw.cum, a ≤ sw.countSoFar
  last : sw.cum.getD (sw.cum.length - 1) 0 = sw.countSoFar

structure HistInv (s : HistState) : Prop where
  sweep : ∀ sw, s.sweep = some sw → SweepOk s.hist.bins.length sw
  returned : ∀ c ∈ s.returned,
    c.bins.Sorted (· ≤ ·) ∧ c.bins.length = s.hist.shape.numBuckets
  conserve : s.recorded = (s.returned.map CumulativeLatencyHistogram.totalCount).sum +
    pending s.sweep + s.hist.bins.sum

theorem histStep_recorded {s t : HistState} (h : HistStep s t) : s.recorded ≤ t.recorded := by
  cases h <;> simp

theorem sweepOk_start (len : ℕ) : SweepOk len .start :=
  ⟨Nat.zero_le _, rfl, List.sorted_nil, by simp [Sweep.start], rfl⟩

@[simp] theorem length_recordValue (lh : LatencyHistogram) (v : UInt64) :
    (lh.recordValue v).bins.length = lh.bins.length :=
  length_addOne ..

@[simp] theorem length_swapBin (lh : LatencyHistogram) (sw : Sweep) :
    (lh.swapBin sw).1.bins.length = lh.bins.length :=
  Sweep.length_swap ..

/-- A recording that does not reach `2^64` adds one to the live counts. -/
theorem sum_recordValue (lh : LatencyHistogram) (v : UInt64) (hw : lh.bins.sum + 1 < UInt64.size) :
    (lh.recordValue v).bins.sum = lh.bins.sum + 1 :=
  sum_addOne (Shape.binOf_lt_length lh _) ((Nat.add_le_add_right (getD_le_sum _ _) 1).trans_lt hw)

/-- A swap that does not wrap the running sum moves one counter from the bins to it. -/
theorem swapBin_spec (lh : LatencyHistogram) (sw : Sweep)
    (hw : sw.countSoFar + lh.bins.sum < UInt64.size) :
    (lh.swapBin sw).2 = ⟨sw.next + 1, sw.countSoFar + lh.bins.getD sw.next 0,
        sw.cum ++ [sw.countSoFar + lh.bins.getD sw.next 0]⟩ ∧
      (lh.swapBin sw).1.bins.sum + lh.bins.getD sw.next 0 = lh.bins.sum := by
  have : sw.countSoFar + lh.bins.getD sw.next 0 < UInt64.size :=
    (Nat.add_le_add_left (getD_le_sum _ _) _).trans_lt hw
  exact ⟨by simp only [LatencyHistogram.swapBin, Sweep.swap, Nat.mod_eq_of_lt this],
    sum_set_zero lh.bins sw.next⟩

theorem SweepOk.swap {len : ℕ} {sw : Sweep} (ok : SweepOk len sw) (inside : sw.next < len)
    (b : ℕ) :
    SweepOk len ⟨sw.next + 1, sw.countSoFar + b, sw.cum ++ [sw.countSoFar + b]⟩ := by
  have hle : ∀ a ∈ sw.cum, a ≤ sw.countSoFar + b :=
    fun a ha => (ok.le_countSoFar a ha).trans (Nat.le_add_right _ b)
  refine ⟨inside, by simp [ok.length_cum], ?_, fun a ha => ?_, by simp⟩
  · exact List.pairwise_append.mpr ⟨ok.sorted, List.pairwise_singleton _ _,
      fun a ha c hc => List.mem_singleton.mp hc ▸ hle a ha⟩
  · rcases List.mem_append.mp ha with ha | ha
    · exact hle a ha
    · exact (List.mem_singleton.mp ha).le

theorem HistInv.step {s t : HistState} (inv : HistInv s) (h : HistStep s t)
    (hw : t.recorded < UInt64.size) : HistInv t := by
  obtain ⟨hsweep, hret, hcons⟩ := inv
  cases h <;> dsimp only at hw
  case record v =>
    refine ⟨by simpa using hsweep, by simpa using hret, ?_⟩
    dsimp only
    rw [sum_recordValue _ _ (by omega)]
    omega
  case begin idle =>
    refine ⟨fun sw hsw => ?_, hret, by simpa [idle, pending] using hcons⟩
    cases hsw
    exact sweepOk_start _
  case swap sw running inside =>
    simp only [running, pending] at hcons
    obtain ⟨hsw, hsum⟩ := swapBin_spec s.hist sw (by omega)
    refine ⟨fun sw' h' => ?_, by simpa using hret, ?_⟩
    · cases h'
      simpa [hsw] using (hsweep sw running).swap inside (s.hist.bins.getD sw.next 0)
    · simp only [pending, hsw]
      omega
  case finish sw running done =>
    have ok := hsweep sw running
    refine ⟨by simp, fun c hc => ?_, ?_⟩
    · rcases List.mem_append.mp hc with hc | hc
      · exact hret c hc
      · rw [List.mem_singleton.mp hc]
        exact ⟨ok.sorted, by
          rw [Shape.snapshot]; simp [ok.length_cum, done, s.hist.length_bins]⟩
    · simp only [running, pending, List.map_append, List.sum_append, List.map_singleton,
        List.sum_singleton, Shape.snapshot, CumulativeLatencyHistogram.totalCount] at hcons ⊢
      rw [ok.last]
      omega

/-- The loop run with nothing in between is a run of `HistStep`s. -/
theorem HistReachable.swaps {shape : Shape} {s : HistState} (h : HistReachable shape s)
    {sw : Sweep} (hs : s.sweep = some sw) (n : ℕ) (hn : sw.next + n ≤ s.hist.bins.length) :
    ∃ t, HistReachable shape t ∧ t.hist.shape = s.hist.shape ∧
      t.hist.bins = (Sweep.run n s.hist.bins sw).1 ∧
      t.sweep = some (Sweep.run n s.hist.bins sw).2 ∧
      t.recorded = s.recorded ∧ t.returned = s.returned := by
  induction n generalizing s sw with
  | zero => exact ⟨s, h, rfl, rfl, hs, rfl, rfl⟩
  | succ n ih =>
    obtain ⟨t, ht, hshape, hbins, hsweep, hrec, hret⟩ :=
      ih (h.step (.swap s sw hs (by omega))) rfl
        (by simp [LatencyHistogram.swapBin, Sweep.swap]; omega)
    exact ⟨t, ht, hshape, hbins, hsweep, hrec, hret⟩

/-- A sequential `AggregateAndReset` is one of the interleaved runs: it returns the
snapshot `aggregateAndReset` computes and leaves its bins. -/
theorem HistReachable.aggregateAndReset {shape : Shape} {s : HistState}
    (h : HistReachable shape s) (idle : s.sweep = none) :
    ∃ t, HistReachable shape t ∧ t.hist = s.hist.aggregateAndReset.2 ∧ t.sweep = none ∧
      t.recorded = s.recorded ∧ t.returned = s.returned ++ [s.hist.aggregateAndReset.1] := by
  obtain ⟨t, ht, hshape, hbins, hsweep, hrec, hret⟩ :=
    (h.step (.begin s idle)).swaps rfl s.hist.bins.length (by simp [Sweep.start])
  refine ⟨_, ht.step (.finish t _ hsweep (by simp [hbins, Sweep.start])), ?_, rfl, hrec, ?_⟩
  · exact LatencyHistogram.ext hshape hbins
  · simp [hret, hshape, LatencyHistogram.aggregateAndReset]

theorem reachable_histInv {shape : Shape} {s : HistState} (h : HistReachable shape s)
    (hw : s.recorded < UInt64.size) : HistInv s := by
  induction h with
  | init => exact ⟨by simp [HistState.init], by simp [HistState.init],
      by simp [HistState.init, newLatencyHistogram, pending]⟩
  | step _ step ih => exact (ih ((histStep_recorded step).trans_lt hw)).step step hw

/-- Every snapshot `AggregateAndReset` returns, whatever increments ran between its swaps,
is non-decreasing and ends at `TotalCount`, and `BinAtPercentile` stops at an index for
every percentile in `[0, 100]`, at a later index for a larger percentile. -/
theorem snapshot_sorted_and_scan_mono {shape : Shape} {s : HistState} (h : HistReachable shape s)
    (hw : s.recorded < UInt64.size) {c : CumulativeLatencyHistogram} (hc : c ∈ s.returned) :
    c.bins.Sorted (· ≤ ·) ∧ c.bins.getD (c.bins.length - 1) 0 = c.totalCount ∧
      ∀ p q : ℚ, 0 ≤ p → p ≤ q → q ≤ 100 →
        ∃ i j, c.selectIndex p = some i ∧ c.selectIndex q = some j ∧ i ≤ j := by
  obtain ⟨hsorted, hlen⟩ := (reachable_histInv h hw).returned c hc
  have hne : c.bins ≠ [] := List.ne_nil_of_length_pos (by rw [hlen, Shape.numBuckets]; omega)
  exact ⟨hsorted, rfl, fun p q _ hpq hq => selectIndex_some_mono c hne hpq hq⟩

theorem snapshot_sorted_after_one_recording :
    ∃ s c, HistReachable recorderShape s ∧ s.recorded < UInt64.size ∧ c ∈ s.returned ∧
      c.bins.Sorted (· ≤ ·) ∧ c.bins.getD (c.bins.length - 1) 0 = c.totalCount ∧
        ∀ p q : ℚ, 0 ≤ p → p ≤ q → q ≤ 100 →
          ∃ i j, c.selectIndex p = some i ∧ c.selectIndex q = some j ∧ i ≤ j := by
  have r0 : HistReachable recorderShape (.init recorderShape) := .init
  obtain ⟨t, ht, -, -, hrec, hret⟩ := (r0.step (.record _ 1000)).aggregateAndReset rfl
  have hw : t.recorded < UInt64.size := by rw [hrec]; decide
  have hc : _ ∈ t.returned := hret ▸ List.mem_append_right _ (List.mem_singleton_self _)
  exact ⟨t, _, ht, hw, hc, snapshot_sorted_and_scan_mono ht hw hc⟩

end GocbMeter
