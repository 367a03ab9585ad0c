import GocbMeter.Interval

/-!
# What an output holds, with nothing running beside it

Between two outputs of a sequential run, the recorder of `(s, p)` holds the histogram a
fresh recorder would hold after the values recorded for `(s, p)` since the first of them
(`Store.Tracks`, kept by every operation but `generateOutput` and restored by it), and
`generateOutput` puts under `[s][p]` the summary of that histogram's snapshot
(`Store.output_lookup`). So each output reports its interval as if the interval had a
recorder of its own (`output_summarizes_values_since_last_output`); what that snapshot's
percentiles are is the subject of `Snapshot`.
-/

namespace GocbMeter

/-- The value an operation records on the recorder of `(s, p)`, if it records one. -/
def MeterState.recordedFor (k : MeterKeys) (s : Service) (p : String) (m : MeterState) :
    MeterOp → List UInt64
  | .recordValue i v =>
    match m.callers[i]? with
    | some c => if k.request? c.name c.tags = some (s, p) then [v] else []
    | none => []
  | _ => []

/-- The values passed to `RecordValue` on the recorders of `(s, p)` while `ops` runs from
`m`. -/
def MeterState.valuesSince (k : MeterKeys) (s : Service) (p : String) :
    MeterState → List MeterOp → List UInt64
  | _, [] => []
  | m, op :: ops => m.recordedFor k s p op ++ MeterState.valuesSince k s p (m.step k op) ops

/-- Each recorder holds what a fresh one would after the values `vals s p`, and no value
is owed to a pair that has no recorder yet. -/
structure Store.Tracks (st : Store) (vals : Service → String → List UInt64) : Prop where
  recorder : ∀ s p ptr, (st.groups s).lookup p = some ptr →
    st.heap[ptr]?.map (·.hist) = some ((newLatencyHistogram recorderShape).recordAll (vals s p))
  unregistered : ∀ s p, (st.groups s).lookup p = none → vals s p = []

/-! ## The maps `generateOutput` builds -/

theorem Store.names_set_getAndResetValues {st : Store} {ptr : ℕ} {r : AggregatingValueRecorder}
    (hr : st.heap[ptr]? = some r) :
    (Store.mk (st.heap.set ptr r.getAndResetValues.2) st.groups).names = st.names := by
  obtain ⟨hlt, rfl⟩ := List.getElem?_eq_some_iff.mp hr
  exact map_set_of_eq _ hlt (peerName_getAndResetValues _)

theorem Store.getAndResetAll_cons_some {st : Store} {ptr : ℕ} {r : AggregatingValueRecorder}
    (hr : st.heap[ptr]? = some r) (ptrs : List ℕ) (m : List (String × Summary)) :
    st.getAndResetAll (ptr :: ptrs) m =
      (Store.mk (st.heap.set ptr r.getAndResetValues.2) st.groups).getAndResetAll ptrs
        (mapSet m r.peerName r.getAndResetValues.1) := by
  rw [getAndResetAll, hr]

theorem Store.getAndResetAll_cons_none {st : Store} {ptr : ℕ} (hr : st.heap[ptr]? = none)
    (ptrs : List ℕ) (m : List (String × Summary)) :
    st.getAndResetAll (ptr :: ptrs) m = st.getAndResetAll ptrs m := by
  rw [getAndResetAll, hr]

theorem Store.heap_getAndResetAll_of_not_mem (st : Store) (ptrs : List ℕ)
    (m : List (String × Summary)) {q : ℕ} (hq : q ∉ ptrs) :
    (st.getAndResetAll ptrs m).2.heap[q]? = st.heap[q]? := by
  induction ptrs generalizing st m with
  | nil => rfl
  | cons ptr ptrs ih =>
    have hne := List.ne_of_not_mem_cons hq
    cases hget : st.heap[ptr]? with
    | none => rw [getAndResetAll_cons_none hget]; exact ih st m (List.not_mem_of_not_mem_cons hq)
    | some r =>
      rw [getAndResetAll_cons_some hget, ih _ _ (List.not_mem_of_not_mem_cons hq)]
      exact List.getElem?_set_ne (Ne.symm hne)

/-- The map the inner loop returns depends only on the recorders it visits. -/
theorem Store.getAndResetAll_congr {st st' : Store} (ptrs : List ℕ) (m : List (String × Summary))
    (h : ∀ q ∈ ptrs, st'.heap[q]? = st.heap[q]?) :
    (st'.getAndResetAll ptrs m).1 = (st.getAndResetAll ptrs m).1 := by
  induction ptrs generalizing st st' m with
  | nil => rfl
  | cons ptr ptrs ih =>
    have hp := h ptr (List.mem_cons_self _ _)
    have rest := fun q hq => h q (List.mem_cons_of_mem ptr hq)
    cases hget : st.heap[ptr]? with
    | none =>
      rw [getAndResetAll_cons_none hget, getAndResetAll_cons_none (hp.trans hget)]
      exact ih _ rest
    | some r =>
      rw [getAndResetAll_cons_some hget, getAndResetAll_cons_some (hp.trans hget)]
      have hlt := (List.getElem?_eq_some_iff.mp hget).1
      have hlt' := (List.getElem?_eq_some_iff.mp (hp.trans hget)).1
      refine ih _ fun q hq => ?_
      by_cases hpq : ptr = q
      · subst hpq; simp only [List.getElem?_set_self hlt, List.getElem?_set_self hlt']
      · simp only [List.getElem?_set_ne hpq, rest q hq]

theorem Store.lookup_getAndResetAll_of_not_mem (st : Store) (ptrs : List ℕ)
    (m : List (String × Summary)) {name : String} (h : name ∉ st.peerNames ptrs) :
    (st.getAndResetAll ptrs m).1.lookup name = m.lookup name := by
  induction ptrs generalizing st m with
  | nil => rfl
  | cons ptr ptrs ih =>
    cases hget : st.heap[ptr]? with
    | none =>
      have hname : st.names[ptr]? = none := by simp [names, hget]
      simp only [peerNames, List.filterMap_cons, hname] at h
      rw [getAndResetAll_cons_none hget]
      exact ih st m h
    | some r =>
      have hname : st.names[ptr]? = some r.peerName := by simp [names, hget]
      simp only [peerNames, List.filterMap_cons, hname, List.mem_cons, not_or] at h
      rw [getAndResetAll_cons_some hget,
        ih _ _ (by simpa only [peerNames, names_set_getAndResetValues hget] using h.2),
        lookup_mapSet, if_neg h.1]

/-- The inner loop maps each visited recorder's peer name to its `GetAndResetValues`. -/
theorem Store.lookup_getAndResetAll (st : Store) (ptrs : List ℕ) (m : List (String × Summary))
    (hnd : ptrs.Nodup) (hnames : (st.peerNames ptrs).Nodup) {ptr : ℕ} (hp : ptr ∈ ptrs)
    {r : AggregatingValueRecorder} (hr : st.heap[ptr]? = some r) :
    (st.getAndResetAll ptrs m).1.lookup r.peerName = some r.getAndResetValues.1 := by
  induction ptrs generalizing st m with
  | nil => cases hp
  | cons q ptrs ih =>
    obtain ⟨hq, hnd⟩ := List.nodup_cons.mp hnd
    cases hget : st.heap[q]? with
    | none =>
      have hname : st.names[q]? = none := by simp [names, hget]
      simp only [peerNames, List.filterMap_cons, hname] at hnames
      rcases List.mem_cons.mp hp with rfl | hp
      · simp [hr] at hget
      · rw [getAndResetAll_cons_none hget]
        exact ih st m hnd hnames hp hr
    | some r' =>
      have hname : st.names[q]? = some r'.peerName := by simp [names, hget]
      simp only [peerNames, List.filterMap_cons, hname, List.nodup_cons] at hnames
      simp only [← names_set_getAndResetValues hget] at hnames
      rw [getAndResetAll_cons_some hget]
      rcases List.mem_cons.mp hp with rfl | hp
      · obtain rfl : r' = r := Option.some.inj (hget.symm.trans hr)
        rw [lookup_getAndResetAll_of_not_mem _ _ _ hnames.1, lookup_mapSet, if_pos rfl]
      · have hne : q ≠ ptr := fun h => hq (h ▸ hp)
        exact ih _ _ hnd hnames.2 hp (by rwa [List.getElem?_set_ne hne])

theorem Store.getAndResetAll_ne_nil {st : Store} (hr : Registry st) {s : Service}
    (hne : st.groups s ≠ []) : (st.getAndResetAll (st.recorders s) []).1 ≠ [] := fun h => by
  have hkeys := st.getAndResetAll_keys (st.recorders s) []
    (by simpa [hr.peerNames_recorders] using hr.nodup s)
  simp [h, hr.peerNames_recorders] at hkeys
  exact hne hkeys

theorem Store.lookup_generateServices_of_not_mem (st : Store) (ss : List Service)
    (out : List (Service × List (String × Summary))) {s : Service} (hs : s ∉ ss) :
    (st.generateServices ss out).1.lookup s = out.lookup s := by
  induction ss generalizing st out with
  | nil => rfl
  | cons s' ss ih =>
    rw [generateServices]
    split
    · exact ih st out (List.not_mem_of_not_mem_cons hs)
    · rw [ih _ _ (List.not_mem_of_not_mem_cons hs)]
      split
      · rw [lookup_mapSet, if_neg (List.ne_of_not_mem_cons hs)]
      · rfl

/-- The outer loop maps each visited service with recorders to what the inner loop
returns for its group, as the group's recorders stood before the loop: no other service
shares them. -/
theorem Store.lookup_generateServices {st : Store} (hr : Registry st) (ss : List Service)
    (out : List (Service × List (String × Summary))) (hss : ss.Nodup) {s : Service}
    (hs : s ∈ ss) (hne : st.groups s ≠ []) :
    (st.generateServices ss out).1.lookup s = some (st.getAndResetAll (st.recorders s) []).1 := by
  induction ss generalizing st out with
  | nil => cases hs
  | cons s' ss ih =>
    obtain ⟨hs', hss⟩ := List.nodup_cons.mp hss
    rw [generateServices]
    rcases List.mem_cons.mp hs with rfl | hs
    · rw [if_neg fun h => hne (recorders_eq_nil.mp h),
        lookup_generateServices_of_not_mem _ _ _ hs',
        if_pos (st.getAndResetAll_ne_nil hr hne), lookup_mapSet, if_pos rfl]
    · have hss' : s ≠ s' := fun h => hs' (h ▸ hs)
      split
      · exact ih hr _ hss hs hne
      · have hg := (st.getAndResetAll_groups (st.recorders s') []).1
        have hrec : (st.getAndResetAll (st.recorders s') []).2.recorders s = st.recorders s :=
          congrArg (List.map Prod.snd) (congrFun hg s)
        rw [ih (hr.getAndResetAll _ _) _ hss hs (by rwa [hg]), hrec]
        refine congrArg some (getAndResetAll_congr _ _ fun q hq => ?_)
        refine heap_getAndResetAll_of_not_mem _ _ _ fun hq' => hss' ?_
        obtain ⟨⟨p, ptr⟩, hp, rfl⟩ := List.mem_map.mp hq
        obtain ⟨⟨p', ptr'⟩, hp', hpq⟩ := List.mem_map.mp hq'
        obtain rfl : ptr' = ptr := hpq
        exact (hr.unique s s' p p' ptr' hp hp').1

/-! ## Recorders between two outputs -/

theorem Store.tracks_generateOutput {st : Store} (hr : Registry st) (interval : ℤ) :
    (st.generateOutput interval).2.Tracks fun _ _ => [] := by
  refine ⟨fun s p ptr hp => ?_, fun _ _ _ => rfl⟩
  have hr' := hr.generateOutput interval
  rw [groups_generateOutput] at hp
  have hmem := mem_of_lookup_eq_some hp
  obtain ⟨r, hget⟩ : ∃ r, (st.generateOutput interval).2.heap[ptr]? = some r :=
    ⟨_, List.getElem?_eq_getElem
      (hr'.lt_of_mem ((groups_generateOutput st interval).symm ▸ hmem))⟩
  have hsum := st.cleared_generateServices Service.all [] (q := ptr)
    (.inr ⟨s, Service.mem_all s, List.mem_map.mpr ⟨_, hmem, rfl⟩⟩) r hget
  have hshape := hr'.shape r (List.mem_iff_getElem?.mpr ⟨ptr, hget⟩)
  have hlen := hr'.length_bins hget
  rw [hget, Option.map_some']
  refine congrArg some (LatencyHistogram.ext hshape (List.eq_replicate_iff.mpr ⟨?_, ?_⟩))
  · simpa [newLatencyHistogram] using hlen
  · exact List.sum_eq_zero_iff.mp hsum

theorem Store.Tracks.getOrCreate {st : Store} {vals : Service → String → List UInt64}
    (hr : Registry st) (ht : st.Tracks vals) (s0 : Service) (p0 : String) :
    (st.getOrCreate s0 p0).2.Tracks vals := by
  refine ⟨fun s p ptr hp => ?_, fun s p hp => ht.unregistered s p ?_⟩
  · rw [lookup_getOrCreate] at hp
    rw [heap_getOrCreate]
    cases hl : (st.groups s).lookup p with
    | some q =>
      obtain rfl : q = ptr := by simpa [hl] using hp
      rw [List.getElem?_append_left (hr.lt_of_mem (mem_of_lookup_eq_some hl))]
      exact ht.recorder s p q hl
    | none =>
      obtain ⟨⟨rfl, rfl⟩, rfl⟩ : (s = s0 ∧ p = p0) ∧ st.heap.length = ptr := by
        simpa [hl] using hp
      rw [if_pos hl, List.getElem?_append_right le_rfl, Nat.sub_self, ht.unregistered s p hl]
      rfl
  · rw [lookup_getOrCreate] at hp
    exact (Option.or_eq_none.mp hp).1

theorem Store.Tracks.recordValue {st : Store} {vals : Service → String → List UInt64}
    (hr : Registry st) (ht : st.Tracks vals) {s0 : Service} {p0 : String} {ptr0 : ℕ}
    (hp0 : (st.groups s0).lookup p0 = some ptr0) (v : UInt64) :
    (st.recordValue (.recorder ptr0) v).Tracks
      fun s p => vals s p ++ if (s0, p0) = (s, p) then [v] else [] := by
  refine ⟨fun s p ptr hp => ?_, fun s p hp => ?_⟩
  · simp only [Store.recordValue] at hp ⊢
    rw [List.getElem?_modify]
    by_cases hsp : (s0, p0) = (s, p)
    · obtain ⟨rfl, rfl⟩ := Prod.mk.inj hsp
      obtain rfl : ptr0 = ptr := Option.some.inj (hp0.symm.trans hp)
      have hhist := ht.recorder s0 p0 ptr0 hp0
      cases hget : st.heap[ptr0]? with
      | none => simp [hget] at hhist
      | some r =>
        simp only [hget, Option.map_some', Option.some.injEq] at hhist
        simp [LatencyHistogram.recordAll_append_singleton, hhist]
    · have hne : ptr0 ≠ ptr := by
        rintro rfl
        obtain ⟨rfl, rfl⟩ := hr.unique s0 s p0 p ptr0 (mem_of_lookup_eq_some hp0)
          (mem_of_lookup_eq_some hp)
        exact hsp rfl
      simpa [hne, hsp] using ht.recorder s p ptr hp
  · rw [groups_recordValue] at hp
    have hsp : (s0, p0) ≠ (s, p) := by
      rintro ⟨⟩
      simp [hp] at hp0
    rw [if_neg hsp, List.append_nil]
    exact ht.unregistered s p hp

/-- Every operation but `generateOutput` keeps each recorder what a fresh one would be
after the values recorded on it. -/
theorem Store.Tracks.step {k : MeterKeys} {m : MeterState} (inv : Inv k ⟨m, .idle⟩)
    {vals : Service → String → List UInt64} (ht : m.store.Tracks vals) {op : MeterOp}
    (hop : op ≠ .generateOutput) :
    (m.step k op).store.Tracks fun s p => vals s p ++ m.recordedFor k s p op := by
  cases op with
  | valueRecorder name tags =>
    simp only [MeterState.recordedFor, List.append_nil, MeterState.step_valueRecorder]
    unfold GocbMeter.valueRecorder
    split
    · exact ht
    · exact ht.getOrCreate inv.registry _ _
  | recordValue i v =>
    rw [MeterState.step_recordValue]
    cases hc : m.callers[i]? with
    | none => simpa [MeterState.recordedFor, hc] using ht
    | some c =>
      have hmem := List.mem_iff_getElem?.mpr ⟨i, hc⟩
      simp only [MeterState.recordedFor, hc]
      cases hreq : k.request? c.name c.tags with
      | none =>
        simpa [inv.noop c hmem hreq, Store.recordValue] using ht
      | some sp =>
        obtain ⟨s0, p0⟩ := sp
        obtain ⟨ptr0, hp0, hh⟩ := inv.recorder c hmem s0 p0 hreq
        rw [hh]
        simpa using ht.recordValue inv.registry hp0 v
  | generateOutput => exact absurd rfl hop

theorem Store.Tracks.run {k : MeterKeys} {opts : Option AggregatingMeterOptions} :
    ∀ (ops : List MeterOp) {m : MeterState} {vals : Service → String → List UInt64},
      Reachable k opts ⟨m, .idle⟩ → (∀ op ∈ ops, op ≠ .generateOutput) →
      m.store.Tracks vals →
      (ops.foldl (MeterState.step k) m).store.Tracks fun s p => vals s p ++ m.valuesSince k s p ops
  | [], _, _, _, _, ht => by simpa [MeterState.valuesSince] using ht
  | op :: ops, m, _, h, hops, ht => by
    have := Store.Tracks.run ops (h.run [op]) (fun o ho => hops o (List.mem_cons_of_mem _ ho))
      (ht.step (reachable_inv h) (hops op (List.mem_cons_self _ _)))
    simpa [MeterState.valuesSince, List.append_assoc] using this

/-- `generateOutput` puts under `[s][p]` the summary of the snapshot of the recorder of
`(s, p)`. -/
theorem Store.output_lookup {st : Store} (hr : Registry st)
    {vals : Service → String → List UInt64} (ht : st.Tracks vals) (interval : ℤ) {s : Service}
    {p : String} {ptr : ℕ} (hp : (st.groups s).lookup p = some ptr) :
    ((st.generateOutput interval).1.services.lookup s).bind
        (fun serviceMap => serviceMap.lookup p) =
      some (summarize
        ((newLatencyHistogram recorderShape).recordAll (vals s p)).aggregateAndReset.1) := by
  have hmem := mem_of_lookup_eq_some hp
  obtain ⟨r, hget, hhist⟩ : ∃ r, st.heap[ptr]? = some r ∧
      r.hist = (newLatencyHistogram recorderShape).recordAll (vals s p) := by
    have := ht.recorder s p ptr hp
    cases hget : st.heap[ptr]? with
    | none => simp [hget] at this
    | some r => exact ⟨r, rfl, by simpa [hget] using this⟩
  have hsvc := st.lookup_generateServices hr Service.all [] (by decide) (Service.mem_all s)
    (List.ne_nil_of_mem hmem)
  have hmap := st.lookup_getAndResetAll (st.recorders s) [] (hr.nodup_recorders s)
    (by rw [hr.peerNames_recorders]; exact hr.nodup s) (List.mem_map.mpr ⟨_, hmem, rfl⟩) hget
  rw [hr.peerName_eq hmem hget] at hmap
  show ((st.generateServices Service.all []).1.lookup s).bind _ = _
  rw [hsvc, Option.some_bind, hmap, ← hhist]
  rfl

/-- In a run of the sequential meter, each `generateOutput` puts under `[s][p]`, for every
pair some `ValueRecorder` call resolved to, the summary (`total_count` and percentiles) that
a recorder made fresh at the previous `generateOutput` would give after exactly the values
passed since to `RecordValue` on the recorders of `(s, p)`. -/
theorem output_summarizes_values_since_last_output (k : MeterKeys)
    (opts : Option AggregatingMeterOptions) (ops ops' : List MeterOp)
    (between : ∀ op ∈ ops', op ≠ .generateOutput) (s : Service) (p : String)
    (hreq : some (s, p) ∈ (MeterState.after k opts (ops ++ .generateOutput :: ops')).requests k) :
    ((MeterState.after k opts (ops ++ .generateOutput :: ops')).output.services.lookup s).bind
        (fun serviceMap => serviceMap.lookup p) =
      some (summarize ((newLatencyHistogram recorderShape).recordAll
        ((MeterState.after k opts (ops ++ [.generateOutput])).valuesSince k s p
          ops')).aggregateAndReset.1) := by
  have hsplit : MeterState.after k opts (ops ++ .generateOutput :: ops') =
      ops'.foldl (MeterState.step k) (MeterState.after k opts (ops ++ [.generateOutput])) := by
    simp only [MeterState.after, List.foldl_append, List.foldl_cons, List.foldl_nil]
  have ht₀ : (MeterState.after k opts (ops ++ [.generateOutput])).store.Tracks fun _ _ => [] := by
    simp only [MeterState.after, List.foldl_append, List.foldl_cons, List.foldl_nil,
      MeterState.step]
    exact Store.tracks_generateOutput (history_after k opts ops).registry _
  have ht := Store.Tracks.run ops' (reachable_after k opts (ops ++ [.generateOutput])) between ht₀
  have hist := history_after k opts (ops ++ .generateOutput :: ops')
  rw [hsplit] at hist hreq ⊢
  obtain ⟨⟨q, ptr⟩, he, rfl⟩ := List.mem_map.mp ((hist.groups s p).mpr hreq)
  simpa using Store.output_lookup hist.registry ht _ (hist.registry.lookup_eq_some.mpr he)

theorem output_summarizes_one_value_since_last_output :
    (∀ op ∈ [MeterOp.recordValue 0 1000], op ≠ .generateOutput) ∧
      some (Service.kv, "node1") ∈ (MeterState.after exampleKeys none ([.valueRecorder "responses"
        [("service", "kv"), ("peer", "node1")]] ++ [.generateOutput, .recordValue 0 1000])).requests
        exampleKeys ∧
      ((MeterState.after exampleKeys none ([.valueRecorder "responses"
        [("service", "kv"), ("peer", "node1")]] ++
        [.generateOutput, .recordValue 0 1000])).output.services.lookup .kv).bind
        (fun serviceMap => serviceMap.lookup "node1") =
      some (summarize
        ((newLatencyHistogram recorderShape).recordAll [1000]).aggregateAndReset.1) := by
  have hreq : exampleKeys.request? "responses" [("service", "kv"), ("peer", "node1")] =
      some (.kv, "node1") := (exampleKeys.request?_eq_some).mpr ⟨rfl, rfl, rfl⟩
  have between : ∀ op ∈ [MeterOp.recordValue 0 1000], op ≠ .generateOutput := by simp
  have hreg : some (Service.kv, "node1") ∈ (MeterState.after exampleKeys none
      ([.valueRecorder "responses" [("service", "kv"), ("peer", "node1")]] ++
        [.generateOutput, .recordValue 0 1000])).requests exampleKeys := by
    simp [MeterState.after, MeterState.step, MeterState.requests, MeterState.init, hreq]
  have hvals : (MeterState.after exampleKeys none ([.valueRecorder "responses"
      [("service", "kv"), ("peer", "node1")]] ++ [.generateOutput])).valuesSince exampleKeys .kv
      "node1" [.recordValue 0 1000] = [1000] := by
    simp [MeterState.valuesSince, MeterState.recordedFor, MeterState.after, MeterState.step,
      MeterState.init, hreq]
  refine ⟨between, hreg, ?_⟩
  rw [output_summarizes_values_since_last_output _ _ _ _ between _ _ hreg, hvals]

end GocbMeter
