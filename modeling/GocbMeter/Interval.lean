import GocbMeter.Sequential

/-!
# What one output reports, with nothing running beside it

A `generateOutput` run alone swaps out every bin of every recorder it visits, and it
visits every recorder the meter has, so afterwards nothing is live
(`Store.live_generateOutput`). With the conservation of `Conservation` on both sides of
the call, the output reports under `[s][p]` what was live in the recorder of `(s, p)`,
and so, in a run of the sequential meter, exactly the `RecordValue` calls made on it
since the previous `generateOutput` (`output_counts_calls_since_last_output`).
-/

namespace GocbMeter

/-- The recorder at `ptr`, if there is one, holds no recordings. -/
def Store.Cleared (st : Store) (ptr : ℕ) : Prop :=
  ∀ r, st.heap[ptr]? = some r → r.hist.bins.sum = 0

/-- A sweep leaves a zero behind in every bin it passes. -/
theorem Sweep.run_clears :
    ∀ (n : ℕ) (bins : List ℕ) (sw : Sweep), (∀ j < sw.next, bins.getD j 0 = 0) →
      ∀ j < sw.next + n, (Sweep.run n bins sw).1.getD j 0 = 0
  | 0, _, _, h => h
  | n + 1, bins, sw, h => fun j hj => by
    refine Sweep.run_clears n _ _ (fun i hi => ?_) j (by simp [Sweep.swap]; omega)
    simp only [Sweep.swap] at hi ⊢
    rw [List.getD_eq_getElem?_getD, List.getElem?_set]
    split
    · split <;> rfl
    · rw [← List.getD_eq_getElem?_getD]
      exact h i (by omega)

theorem AggregatingValueRecorder.sum_getAndResetValues (r : AggregatingValueRecorder) :
    r.getAndResetValues.2.hist.bins.sum = 0 := by
  have hzero := Sweep.run_clears r.hist.bins.length r.hist.bins .start fun _ h =>
    absurd h (Nat.not_lt_zero _)
  have hbins : r.getAndResetValues.2.hist.bins =
      (Sweep.run r.hist.bins.length r.hist.bins .start).1 := rfl
  rw [hbins]
  refine List.sum_eq_zero fun b hb => ?_
  obtain ⟨j, hj, rfl⟩ := List.getElem_of_mem hb
  rw [← List.getD_eq_getElem _ 0 hj]
  exact hzero j (by simpa [Sweep.start] using hj)

theorem Store.cleared_getAndResetAll (st : Store) (ptrs : List ℕ) (m : List (String × Summary))
    {q : ℕ} (h : st.Cleared q ∨ q ∈ ptrs) : (st.getAndResetAll ptrs m).2.Cleared q := by
  induction ptrs generalizing st m with
  | nil => exact h.resolve_right (List.not_mem_nil _)
  | cons ptr ptrs ih =>
    rw [getAndResetAll]
    split
    · next r hr =>
      have hlt := (List.getElem?_eq_some_iff.mp hr).1
      refine ih ⟨st.heap.set ptr r.getAndResetValues.2, st.groups⟩ _ ?_
      by_cases hq : q = ptr
      · subst hq
        refine .inl fun r' hr' => ?_
        simp only [List.getElem?_set_self hlt, Option.some.injEq] at hr'
        exact hr' ▸ r.sum_getAndResetValues
      · refine h.imp (fun hc r' hr' => hc r' ?_) fun hm => (List.mem_cons.mp hm).resolve_left hq
        rwa [List.getElem?_set_ne (Ne.symm hq)] at hr'
    · next hr =>
      refine ih st m ?_
      by_cases hq : q = ptr
      · exact .inl fun r' hr' => by simp [hq, hr] at hr'
      · exact h.imp id fun hm => (List.mem_cons.mp hm).resolve_left hq

theorem Store.cleared_generateServices (st : Store) (ss : List Service)
    (out : List (Service × List (String × Summary))) {q : ℕ}
    (h : st.Cleared q ∨ ∃ s ∈ ss, q ∈ st.recorders s) :
    (st.generateServices ss out).2.Cleared q := by
  induction ss generalizing st out with
  | nil => simpa using h
  | cons s ss ih =>
    rw [generateServices]
    split
    · next hnil =>
      refine ih st out (h.imp id ?_)
      rintro ⟨s', hs', hq⟩
      rcases List.mem_cons.mp hs' with rfl | hs'
      · exact absurd hq (hnil ▸ List.not_mem_nil q)
      · exact ⟨s', hs', hq⟩
    · have hg := (st.getAndResetAll_groups (st.recorders s) []).1
      refine ih _ _ ?_
      rcases h with hc | ⟨s', hs', hq⟩
      · exact .inl (st.cleared_getAndResetAll _ _ (.inl hc))
      · rcases List.mem_cons.mp hs' with rfl | hs'
        · exact .inl (st.cleared_getAndResetAll _ _ (.inr hq))
        · exact .inr ⟨s', hs', by rwa [recorders, hg]⟩

/-- `generateOutput` run alone leaves no recording live. -/
theorem Store.live_generateOutput (st : Store) (interval : ℤ) (s : Service) (p : String) :
    (st.generateOutput interval).2.live s p = 0 := by
  unfold live
  rw [groups_generateOutput]
  split
  · next ptr hp =>
    have hc := st.cleared_generateServices Service.all [] (q := ptr)
      (.inr ⟨s, Service.mem_all s, List.mem_map.mpr ⟨_, mem_of_lookup_eq_some hp, rfl⟩⟩)
    cases hr : (st.generateOutput interval).2.heap[ptr]? with
    | none => rfl
    | some r => exact hc r hr
  · rfl

theorem MeterState.reported_generateOutput (k : MeterKeys) (m : MeterState) (s : Service)
    (p : String) :
    (m.step k .generateOutput).reported s p = m.reported s p + m.output.countAt s p := by
  simp [MeterState.step, reported]

theorem MeterState.callsFor_le_run {k : MeterKeys} (s : Service) (p : String) :
    ∀ (ops : List MeterOp) (m : MeterState),
      m.callsFor k s p ≤ (ops.foldl (MeterState.step k) m).callsFor k s p
  | [], _ => le_rfl
  | op :: ops, m => by
    refine le_trans ?_ (MeterState.callsFor_le_run s p ops _)
    cases op with
    | valueRecorder => simp [MeterState.step, MeterState.callsFor]
    | recordValue i v =>
      cases hc : m.callers[i]? with
      | none => simp [MeterState.step, hc]
      | some c => rw [callsFor_recordValue k m hc]; omega
    | generateOutput => exact le_rfl

section Reported

variable {k : MeterKeys} {opts : Option AggregatingMeterOptions}

/-- The output of a `generateOutput` run alone reports under `[s][p]` what was live in the
recorder of `(s, p)`. -/
theorem output_countAt_of_reachable {m : MeterState} (h : Reachable k opts ⟨m, .idle⟩)
    {s : Service} {p : String} (hw : m.callsFor k s p < UInt64.size) :
    m.output.countAt s p = m.store.live s p := by
  have hbefore := reachable_conserved h s p hw
  have hafter := reachable_conserved (h.generateOutput rfl) s p hw
  have hlive := Store.live_generateOutput m.store m.interval s p
  simp only [State.held, Emitter.pending, add_zero, MeterState.reported_generateOutput] at *
  have hcalls : (m.step k .generateOutput).callsFor k s p = m.callsFor k s p := rfl
  have hstore : (m.step k .generateOutput).store = (m.store.generateOutput m.interval).2 := rfl
  rw [hcalls, hstore, hlive] at hafter
  omega

/-- Between two states with the same outputs, the next output reports what was live at
the first and every call made since. -/
theorem output_countAt_since {m₀ m : MeterState} (h₀ : Reachable k opts ⟨m₀, .idle⟩)
    (h : Reachable k opts ⟨m, .idle⟩) (same : m.outputs = m₀.outputs) {s : Service}
    {p : String} (hle : m₀.callsFor k s p ≤ m.callsFor k s p)
    (hw : m.callsFor k s p < UInt64.size) :
    m.output.countAt s p + m₀.callsFor k s p = m₀.store.live s p + m.callsFor k s p := by
  have start := reachable_conserved h₀ s p (lt_of_le_of_lt hle hw)
  have now := reachable_conserved h s p hw
  have hrep : m.reported s p = m₀.reported s p := by simp only [MeterState.reported, same]
  simp only [State.held, Emitter.pending, add_zero] at start now
  rw [output_countAt_of_reachable h hw]
  omega

end Reported

/-- In a run of the sequential meter, each `generateOutput` reports under `[s][p]`
exactly the `RecordValue` calls made on the recorders of `(s, p)` since the previous
`generateOutput`, while all calls on them number fewer than `2^64`. -/
theorem output_counts_calls_since_last_output (k : MeterKeys)
    (opts : Option AggregatingMeterOptions) (ops ops' : List MeterOp)
    (between : ∀ op ∈ ops', op ≠ .generateOutput) (s : Service) (p : String)
    (hw : (MeterState.after k opts (ops ++ .generateOutput :: ops')).callsFor k s p <
      UInt64.size) :
    (MeterState.after k opts (ops ++ .generateOutput :: ops')).output.countAt s p =
      (MeterState.after k opts (ops ++ .generateOutput :: ops')).callsFor k s p -
        (MeterState.after k opts (ops ++ [.generateOutput])).callsFor k s p := by
  have hsplit : MeterState.after k opts (ops ++ .generateOutput :: ops') =
      ops'.foldl (MeterState.step k) (MeterState.after k opts (ops ++ [.generateOutput])) := by
    simp only [MeterState.after, List.foldl_append, List.foldl_cons, List.foldl_nil]
  have h₀ := reachable_after k opts (ops ++ [.generateOutput])
  have hlive : (MeterState.after k opts (ops ++ [.generateOutput])).store.live s p = 0 := by
    simp only [MeterState.after, List.foldl_append, List.foldl_cons, List.foldl_nil,
      MeterState.step]
    exact Store.live_generateOutput ..
  rw [hsplit] at hw ⊢
  have := output_countAt_since h₀ (h₀.run ops') (MeterState.outputs_run ops' _ between)
    (MeterState.callsFor_le_run s p ops' _) hw
  omega

theorem output_counts_one_call_since_last_output :
    (∀ op ∈ [MeterOp.recordValue 0 1000], op ≠ .generateOutput) ∧
      (MeterState.after exampleKeys none ([.valueRecorder "responses"
        [("service", "kv"), ("peer", "node1")]] ++ [.generateOutput, .recordValue 0 1000])).callsFor
        exampleKeys .kv "node1" < UInt64.size ∧
      (MeterState.after exampleKeys none ([.valueRecorder "responses"
        [("service", "kv"), ("peer", "node1")]] ++
        [.generateOutput, .recordValue 0 1000])).output.countAt .kv "node1" = 1 := by
  have hreq : exampleKeys.request? "responses" [("service", "kv"), ("peer", "node1")] =
      some (.kv, "node1") := (exampleKeys.request?_eq_some).mpr ⟨rfl, rfl, rfl⟩
  have hcalls : (MeterState.after exampleKeys none ([.valueRecorder "responses"
      [("service", "kv"), ("peer", "node1")]] ++ [.generateOutput, .recordValue 0 1000])).callsFor
      exampleKeys .kv "node1" = 1 := by
    simp [MeterState.after, MeterState.step, MeterState.callsFor, MeterState.init, hreq]
  have hcalls₀ : (MeterState.after exampleKeys none ([.valueRecorder "responses"
      [("service", "kv"), ("peer", "node1")]] ++ [.generateOutput])).callsFor
      exampleKeys .kv "node1" = 0 := by
    simp [MeterState.after, MeterState.step, MeterState.callsFor, MeterState.init, hreq]
  have between : ∀ op ∈ [MeterOp.recordValue 0 1000], op ≠ .generateOutput := by simp
  have hw : (MeterState.after exampleKeys none ([.valueRecorder "responses"
      [("service", "kv"), ("peer", "node1")]] ++ [.generateOutput, .recordValue 0 1000])).callsFor
      exampleKeys .kv "node1" < UInt64.size := by rw [hcalls]; decide
  refine ⟨between, hw, ?_⟩
  rw [output_counts_calls_since_last_output _ _ _ _ between _ _ hw, hcalls, hcalls₀]

end GocbMeter
