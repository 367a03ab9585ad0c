import GocbMeter.Interleaving

/-!
# Nothing recorded is lost or counted twice

For every service `s` and peer `p`, the `RecordValue` calls made on the recorders
returned for `(meterNameResponses, {service: s, peer: p})` are all somewhere, once: in
the `total_count` of `output[s][p]` of a finished `generateOutput`, in what the running
`generateOutput` has swapped out of that recorder, or in the recorder's live bins
(`recordings_conserved`). That holds in every reachable state while those calls number
fewer than `2^64`, whatever the interleaving. Calls on the no-op recorder change nothing.
-/

namespace GocbMeter

/-- The `RecordValue` calls made on the recorders returned for `(s, p)`. -/
def MeterState.callsFor (k : MeterKeys) (m : MeterState) (s : Service) (p : String) : ℕ :=
  (m.callers.map fun c => if k.request? c.name c.tags = some (s, p) then c.calls else 0).sum

/-- `total_count` of peer `p` in a service map, `0` when it has none. -/
def countIn (serviceMap : List (String × Summary)) (p : String) : ℕ :=
  ((serviceMap.lookup p).map Summary.totalCount).getD 0

/-- `total_count` under `output[s][p]`, `0` when the output has no such key. -/
def Output.countAt (o : Output) (s : Service) (p : String) : ℕ :=
  ((o.services.lookup s).map fun serviceMap => countIn serviceMap p).getD 0

/-- What the finished `generateOutput` runs reported under `[s][p]`, all together. -/
def MeterState.reported (m : MeterState) (s : Service) (p : String) : ℕ :=
  (m.outputs.map fun o => o.countAt s p).sum

/-- The live bins of the recorder of `(s, p)`, if its group has one. -/
def Store.live (st : Store) (s : Service) (p : String) : ℕ :=
  match (st.groups s).lookup p with
  | some ptr => (st.heap[ptr]?.map fun r => r.hist.bins.sum).getD 0
  | none => 0

/-- What the running `generateOutput` has swapped out of the recorder of `(s, p)`: in the
output or the service map it is building, or in the running sum of its sweep. -/
def Emitter.pending (g : Service → List (String × ℕ)) (s : Service) (p : String) :
    Emitter → ℕ
  | .idle => 0
  | .services _ out => out.countAt s p
  | .recorders s' _ out _ serviceMap => out.countAt s p + if s' = s then countIn serviceMap p else 0
  | .sweeping s' _ out ptr _ serviceMap sw =>
    out.countAt s p + if s' = s then
      countIn serviceMap p + (if (g s).lookup p = some ptr then sw.countSoFar else 0) else 0

/-- Where the recordings of `(s, p)` are held. -/
def State.held (m : State) (s : Service) (p : String) : ℕ :=
  m.reported s p + m.emitter.pending m.store.groups s p + m.store.live s p

def Conserved (k : MeterKeys) (m : State) : Prop :=
  ∀ s p, m.callsFor k s p < UInt64.size → m.callsFor k s p = m.held s p

/-! ## Maps -/

theorem lookup_mapSet {κ α : Type} [DecidableEq κ] (m : List (κ × α)) (key key' : κ)
    (v : α) : (mapSet m key v).lookup key' = if key' = key then some v else m.lookup key' := by
  induction m with
  | nil =>
    by_cases h : key' = key
    · simp [mapSet, List.lookup_cons, h]
    · simp [mapSet, List.lookup_cons, h, beq_eq_false_iff_ne.mpr h]
  | cons e m ih =>
    obtain ⟨q, a⟩ := e
    by_cases hq : q = key
    · subst hq
      have hm : mapSet ((q, a) :: m) q v = mapSet m q v := by simp [mapSet, List.filter_cons]
      rw [hm, ih]
      by_cases h : key' = q
      · simp [h]
      · simp [h, List.lookup_cons, beq_eq_false_iff_ne.mpr h]
    · have hm : mapSet ((q, a) :: m) key v = (q, a) :: mapSet m key v := by
        simp [mapSet, List.filter_cons, hq]
      rw [hm]
      by_cases h : key' = q
      · subst h; simp [List.lookup_cons, hq]
      · simp [List.lookup_cons, beq_eq_false_iff_ne.mpr h, ih]

theorem lookup_eq_none_of_not_mem {κ α : Type} [DecidableEq κ] {m : List (κ × α)} {key : κ}
    (h : key ∉ m.map Prod.fst) : m.lookup key = none :=
  List.lookup_eq_none_iff.mpr fun _ he =>
    bne_iff_ne.mpr fun hk => h (hk ▸ List.mem_map_of_mem Prod.fst he)

theorem countIn_mapSet (serviceMap : List (String × Summary)) (q p : String) (v : Summary) :
    countIn (mapSet serviceMap q v) p = if p = q then v.totalCount else countIn serviceMap p := by
  unfold countIn
  rw [lookup_mapSet]
  split <;> rfl

/-- `output[s] = serviceMap` adds the service map's counts under `s`, which had none. -/
theorem Output.countAt_add {out : Output} {s : Service} (h : s ∉ out.services.map Prod.fst)
    (serviceMap : List (String × Summary)) (s' : Service) (p : String) :
    (out.add s serviceMap).countAt s' p =
      out.countAt s' p + if s = s' then countIn serviceMap p else 0 := by
  unfold Output.add
  split
  · by_cases hs : s = s'
    · subst hs
      simp [countAt, lookup_mapSet, lookup_eq_none_of_not_mem h]
    · simp [countAt, lookup_mapSet, hs, Ne.symm hs]
  · next hnil =>
    obtain rfl : serviceMap = [] := not_not.mp hnil
    simp [countIn]

/-! ## Calls -/

theorem sum_map_modify {α : Type} (f : α → α) (g : α → ℕ) :
    ∀ (l : List α) (i : ℕ) {a : α}, l[i]? = some a →
      ((l.modify f i).map g).sum + g a = (l.map g).sum + g (f a)
  | [], _, _, h => by simp at h
  | b :: l, 0, a, h => by
    obtain rfl : b = a := by simpa using h
    simp only [List.modify_zero_cons, List.map_cons, List.sum_cons]
    omega
  | b :: l, i + 1, a, h => by
    have := sum_map_modify f g l i (by simpa using h)
    simp only [List.modify_succ_cons, List.map_cons, List.sum_cons]
    omega

theorem callsFor_recordValue (k : MeterKeys) (m : MeterState) {i : ℕ} {c : Caller}
    (hc : m.callers[i]? = some c) (v : UInt64) (s : Service) (p : String) :
    (m.step k (.recordValue i v)).callsFor k s p =
      m.callsFor k s p + if k.request? c.name c.tags = some (s, p) then 1 else 0 := by
  have := sum_map_modify (fun c => { c with calls := c.calls + 1 })
    (fun c => if k.request? c.name c.tags = some (s, p) then c.calls else 0) m.callers i hc
  simp only [MeterState.step_recordValue, hc, MeterState.callsFor]
  split
  · next hsp => simp only [hsp, if_true] at this; omega
  · next hsp => simpa [hsp] using this

/-! ## Live bins -/

@[simp] theorem sum_newAggregatingValueRecorder (p : String) :
    (newAggregatingValueRecorder p).hist.bins.sum = 0 := by
  simp [newAggregatingValueRecorder, newLatencyHistogram]

theorem Store.live_getOrCreate {st : Store} (hr : Registry st) (s0 : Service) (p0 : String)
    (s : Service) (p : String) : (st.getOrCreate s0 p0).2.live s p = st.live s p := by
  unfold live
  rw [st.lookup_getOrCreate, st.heap_getOrCreate]
  cases hl : (st.groups s).lookup p with
  | some ptr =>
    have hlt := hr.lt_of_mem (mem_of_lookup_eq_some hl)
    simp [List.getElem?_append_left hlt]
  | none =>
    by_cases hsp : s = s0 ∧ p = p0
    · obtain ⟨rfl, rfl⟩ := hsp
      simp [hl]
    · simp [hsp]

theorem Store.live_valueRecorder {st : Store} (hr : Registry st) (k : MeterKeys) (name : String)
    (tags : List (String × String)) (s : Service) (p : String) :
    (valueRecorder k st name tags).2.live s p = st.live s p := by
  unfold valueRecorder
  split
  · rfl
  · exact st.live_getOrCreate hr _ _ s p

/-- A `ValueRecorder` call moves no pointer of the groups, and a pointer it adds is past
the old heap. -/
theorem Store.lookup_valueRecorder (st : Store) (k : MeterKeys) (name : String)
    (tags : List (String × String)) {ptr : ℕ} (hlt : ptr < st.heap.length) (s : Service)
    (p : String) : ((valueRecorder k st name tags).2.groups s).lookup p = some ptr ↔
      (st.groups s).lookup p = some ptr := by
  unfold valueRecorder
  split
  · rfl
  · rw [lookup_getOrCreate]
    cases (st.groups s).lookup p with
    | some x => rfl
    | none => split <;> simp [hlt.ne']

theorem Emitter.pending_valueRecorder {st : Store} (hr : Registry st) {e : Emitter}
    (he : e.Ok st.groups) (k : MeterKeys) (name : String) (tags : List (String × String))
    (s : Service) (p : String) :
    e.pending (valueRecorder k st name tags).2.groups s p = e.pending st.groups s p := by
  cases e with
  | sweeping s' todo out ptr ptrs serviceMap sw =>
    obtain ⟨q, hq⟩ := he.2.1.registered ptr (List.mem_cons_self _ _)
    simp only [pending, st.lookup_valueRecorder k name tags (hr.lt_of_mem hq)]
  | _ => rfl

/-- An increment adds one to the live bins of its own recorder and to no other, while it
does not wrap. -/
theorem Store.live_recordValue {st : Store} (hr : Registry st) {s0 : Service} {p0 : String}
    {ptr0 : ℕ} (hl : (st.groups s0).lookup p0 = some ptr0) (v : UInt64) (s : Service)
    (p : String) (hw : (s0, p0) = (s, p) → st.live s p + 1 < UInt64.size) :
    (st.recordValue (.recorder ptr0) v).live s p =
      st.live s p + if (s0, p0) = (s, p) then 1 else 0 := by
  simp only [live, recordValue]
  cases hlk : (st.groups s).lookup p with
  | none =>
    have : (s0, p0) ≠ (s, p) := by rintro ⟨⟩; simp [hl] at hlk
    simp [this]
  | some x =>
    by_cases hx : x = ptr0
    · subst hx
      obtain ⟨rfl, rfl⟩ := hr.unique _ _ _ _ _ (mem_of_lookup_eq_some hl)
        (mem_of_lookup_eq_some hlk)
      obtain ⟨r, hr'⟩ := Option.isSome_iff_exists.mp
        (List.getElem?_eq_some_iff.mpr ⟨hr.lt_of_mem (mem_of_lookup_eq_some hl), rfl⟩ ▸ rfl :
          st.heap[x]?.isSome)
      have hw' := hw rfl
      simp only [live, hlk, hr', Option.map_some', Option.getD_some] at hw'
      simp [List.getElem?_modify, hr', sum_recordValue _ _ hw']
    · have : (s0, p0) ≠ (s, p) := by rintro ⟨⟩; simp [hl] at hlk; exact hx hlk.symm
      simp [List.getElem?_modify, Ne.symm hx, this]

/-- The swap moves the bin out of the live bins of its recorder, and touches no other. -/
theorem Store.live_swapBin (st : Store) {ptr : ℕ} {r : AggregatingValueRecorder}
    (hr : st.heap[ptr]? = some r) (sw : Sweep) (s : Service) (p : String) :
    (st.swapBin ptr r sw).live s p =
      if (st.groups s).lookup p = some ptr then (r.hist.swapBin sw).1.bins.sum
      else st.live s p := by
  have hlt := (List.getElem?_eq_some_iff.mp hr).1
  simp only [live, groups_swapBin, swapBin]
  cases hlk : (st.groups s).lookup p with
  | none => simp
  | some x =>
    by_cases hx : x = ptr
    · subst hx; simp [List.getElem?_set, hlt]
    · simp [List.getElem?_set, Ne.symm hx, hx]

/-! ## Every step keeps the count -/

theorem Conserved.of_delta {k : MeterKeys} {m m' : State} (hc : Conserved k m)
    (δ : Service → String → ℕ)
    (hcalls : ∀ s p, m'.callsFor k s p = m.callsFor k s p + δ s p)
    (hheld : ∀ s p, m'.callsFor k s p < UInt64.size → m'.held s p = m.held s p + δ s p) :
    Conserved k m' := fun s p hw => by
  have := hc s p (by rw [hcalls] at hw; omega)
  rw [hheld s p hw, hcalls]
  omega

theorem Conserved.valueRecorder {k : MeterKeys} {m : State} (inv : Inv k m)
    (hc : Conserved k m) (name : String) (tags : List (String × String)) :
    Conserved k ⟨m.toMeterState.step k (.valueRecorder name tags), m.emitter⟩ := by
  refine hc.of_delta (fun _ _ => 0) (fun s p => by simp [MeterState.callsFor]) fun s p _ => ?_
  simp only [State.held, MeterState.step_valueRecorder,
    Emitter.pending_valueRecorder inv.registry inv.emitter, m.store.live_valueRecorder inv.registry]
  rfl

theorem Conserved.recordValue {k : MeterKeys} {m : State} (inv : Inv k m)
    (hc : Conserved k m) (i : ℕ) (v : UInt64) :
    Conserved k ⟨m.toMeterState.step k (.recordValue i v), m.emitter⟩ := by
  cases hi : m.callers[i]? with
  | none =>
    have : m.toMeterState.step k (.recordValue i v) = m.toMeterState := by
      simp [MeterState.step_recordValue, hi]
    rw [this]
    exact hc
  | some c =>
    have hcalls := callsFor_recordValue k m.toMeterState hi v
    refine hc.of_delta _ hcalls fun s p hw => ?_
    have hmem : c ∈ m.callers := by
      obtain ⟨hlt, rfl⟩ := List.getElem?_eq_some_iff.mp hi
      exact List.getElem_mem hlt
    have hstep : m.toMeterState.step k (.recordValue i v) = { m.toMeterState with
        store := m.store.recordValue c.handle v
        callers := m.callers.modify (fun c => { c with calls := c.calls + 1 }) i } := by
      simp [MeterState.step_recordValue, hi]
    simp only [State.held, hstep, Store.groups_recordValue, MeterState.reported]
    cases hreq : k.request? c.name c.tags with
    | none =>
      rw [inv.noop c hmem hreq]
      simp [Store.recordValue]
    | some sp =>
      obtain ⟨s0, p0⟩ := sp
      obtain ⟨ptr0, hl, hh⟩ := inv.recorder c hmem s0 p0 hreq
      rw [hh, Store.live_recordValue inv.registry hl v s p fun heq => ?_]
      · simp only [Option.some.injEq]
        omega
      · obtain ⟨rfl, rfl⟩ := Prod.mk.inj heq
        have hw' : m.callsFor k s0 p0 + 1 < UInt64.size := by simpa [hcalls, hreq] using hw
        have := hc s0 p0 (by omega)
        simp only [State.held] at this
        omega

theorem Conserved.swap {k : MeterKeys} {m : State} (inv : Inv k m) (hc : Conserved k m)
    {s : Service} {todo : List Service} {out : Output} {ptr : ℕ} {ptrs : List ℕ}
    {serviceMap : List (String × Summary)} {sw : Sweep}
    (pc : m.emitter = .sweeping s todo out ptr ptrs serviceMap sw)
    {r : AggregatingValueRecorder} (hr : m.store.heap[ptr]? = some r) :
    Conserved k { m with
      store := m.store.swapBin ptr r sw
      emitter := .sweeping s todo out ptr ptrs serviceMap (r.hist.swapBin sw).2 } := by
  refine hc.of_delta (fun _ _ => 0) (fun _ _ => rfl) fun S P hw => ?_
  have he := inv.emitter
  rw [pc] at he
  simp only [State.held, MeterState.reported, Emitter.pending, Store.groups_swapBin,
    m.store.live_swapBin hr, pc, add_zero]
  by_cases hl : (m.store.groups S).lookup P = some ptr
  · obtain ⟨q, hq⟩ := he.2.1.registered ptr (List.mem_cons_self _ _)
    obtain ⟨rfl, -⟩ := inv.registry.unique _ _ _ _ _ hq (mem_of_lookup_eq_some hl)
    have hlive : m.store.live s P = r.hist.bins.sum := by simp [Store.live, hl, hr]
    have hcons := hc s P hw
    have hw' : m.callsFor k s P < UInt64.size := hw
    simp only [State.held, MeterState.reported, Emitter.pending, pc, hl, if_true, hlive] at hcons
    obtain ⟨hsw, hsum⟩ := swapBin_spec r.hist sw (by omega)
    simp only [hl, if_true, hsw, hlive]
    omega
  · simp [hl, MeterState.reported]

theorem Conserved.getAndReset {k : MeterKeys} {m : State} (inv : Inv k m) (hc : Conserved k m)
    {s : Service} {todo : List Service} {out : Output} {ptr : ℕ} {ptrs : List ℕ}
    {serviceMap : List (String × Summary)} {sw : Sweep}
    (pc : m.emitter = .sweeping s todo out ptr ptrs serviceMap sw)
    {r : AggregatingValueRecorder} (hr : m.store.heap[ptr]? = some r) :
    Conserved k { m with
      emitter := .recorders s todo out ptrs
        (mapSet serviceMap r.peerName (summarize (r.hist.shape.snapshot sw.cum))) } := by
  refine hc.of_delta (fun _ _ => 0) (fun _ _ => rfl) fun S P _ => ?_
  have he := inv.emitter
  rw [pc] at he
  obtain ⟨q, hq⟩ := he.2.1.registered ptr (List.mem_cons_self _ _)
  obtain rfl := inv.registry.peerName_eq hq hr
  simp only [State.held, Emitter.pending, pc, countIn_mapSet, add_zero]
  by_cases hs : s = S
  · subst hs
    by_cases hp : P = r.peerName
    · subst hp
      have hnot := he.2.1.fresh ptr (List.mem_cons_self _ _) _ hq
      have hlast : sw.cum[sw.cum.length - 1]?.getD 0 = sw.countSoFar := by simpa using he.2.2.1
      simp [inv.registry.lookup_eq_some.mpr hq, countIn, lookup_eq_none_of_not_mem hnot,
        summarize, CumulativeLatencyHistogram.totalCount, Shape.snapshot, hlast]
    · have : (m.store.groups s).lookup P ≠ some ptr := fun hl =>
        hp (inv.registry.unique _ _ _ _ _ (mem_of_lookup_eq_some hl) hq).2
      simp [hp, this]
  · simp [hs]

theorem Conserved.step {k : MeterKeys} {m m' : State} (inv : Inv k m) (hc : Conserved k m)
    (h : Step k m m') : Conserved k m' := by
  cases h with
  | valueRecorder name tags => exact hc.valueRecorder inv name tags
  | recordValue i v => exact hc.recordValue inv i v
  | start pc order perm =>
    refine hc.of_delta (fun _ _ => 0) (fun _ _ => rfl) fun _ _ _ => ?_
    simp [State.held, Emitter.pending, pc, Output.countAt]
  | recorders pc ptrs perm =>
    refine hc.of_delta (fun _ _ => 0) (fun _ _ => rfl) fun _ _ _ => ?_
    split <;> simp [State.held, Emitter.pending, pc, countIn]
  | begin pc =>
    refine hc.of_delta (fun _ _ => 0) (fun _ _ => rfl) fun _ _ _ => ?_
    simp [State.held, Emitter.pending, pc, Sweep.start]
  | swap pc hr inside => exact hc.swap inv pc hr
  | getAndReset pc hr done => exact hc.getAndReset inv pc hr
  | endService pc =>
    refine hc.of_delta (fun _ _ => 0) (fun _ _ => rfl) fun _ _ _ => ?_
    have he := inv.emitter
    rw [pc] at he
    simp only [State.held, Emitter.pending, pc,
      Output.countAt_add (he.1.fresh _ (List.mem_cons_self _ _))]
    omega
  | finish pc =>
    refine hc.of_delta (fun _ _ => 0) (fun _ _ => rfl) fun _ _ _ => ?_
    simp only [State.held, MeterState.reported, Emitter.pending, pc, List.map_append,
      List.sum_append, List.map_singleton, List.sum_singleton]
    omega

theorem reachable_conserved {k : MeterKeys} {opts : Option AggregatingMeterOptions} {m : State}
    (h : Reachable k opts m) : Conserved k m := by
  induction h with
  | init =>
    intro s p _
    simp [State.init, MeterState.init, newAggregatingMeter, Store.empty, MeterState.callsFor,
      State.held, MeterState.reported, Emitter.pending, Store.live]
  | step hr step ih => exact ih.step (reachable_inv hr) step

/-- Under any interleaving, every `RecordValue` call on a recorder returned for `(s, p)` is
counted once: in a finished output's `total_count` under `[s][p]`, in what the running
`generateOutput` has swapped out of that recorder, or in its live bins, while those calls
number fewer than `2^64`. A call on a recorder returned for any other request goes to the
no-op recorder and changes no recorder. -/
theorem recordings_conserved {k : MeterKeys} {opts : Option AggregatingMeterOptions}
    {m : State} (h : Reachable k opts m) :
    (∀ s p, m.callsFor k s p < UInt64.size →
      m.callsFor k s p = m.reported s p + m.emitter.pending m.store.groups s p +
        m.store.live s p) ∧
      ∀ c ∈ m.callers, k.request? c.name c.tags = none →
        ∀ v, m.store.recordValue c.handle v = m.store := by
  refine ⟨reachable_conserved h, fun c hc hnone v => ?_⟩
  rw [(reachable_inv h).noop c hc hnone]
  rfl

theorem recordings_conserved_mid_sweep :
    ∃ m : State, Reachable exampleKeys none m ∧ m.callsFor exampleKeys .kv "node1" = 1 ∧
      m.emitter.pending m.store.groups .kv "node1" = 1 ∧
      (∀ s p, m.callsFor exampleKeys s p < UInt64.size →
        m.callsFor exampleKeys s p = m.reported s p + m.emitter.pending m.store.groups s p +
          m.store.live s p) ∧
      ∀ c ∈ m.callers, exampleKeys.request? c.name c.tags = none →
        ∀ v, m.store.recordValue c.handle v = m.store := by
  have hreq : exampleKeys.request? "responses" [("service", "kv"), ("peer", "node1")] =
      some (.kv, "node1") := (exampleKeys.request?_eq_some).mpr ⟨rfl, rfl, rfl⟩
  have hbin : recorderShape.binOf 1000 = 0 := by
    rw [Shape.binOf, if_neg (by norm_num [recorderShape]), if_pos (by norm_num [recorderShape])]
  have r2 := ((@Reachable.init exampleKeys none).step
    (.valueRecorder _ "responses" [("service", "kv"), ("peer", "node1")])).step
      (.recordValue _ 0 1000)
  simp [State.init, MeterState.init, MeterState.step_recordValue, valueRecorder, hreq,
    Store.getOrCreate, Store.empty, newAggregatingMeter, Store.recordValue] at r2
  -- a `generateOutput` starts with `kv` and swaps out the first bin of its one recorder
  have r6 := (((r2.step (.start _ rfl Service.all (List.Perm.refl _))).step
    (.recorders _ rfl [0] (by simp [Store.recorders]))).step (.begin _ rfl)).step
      (.swap _ rfl rfl (by simp [LatencyHistogram.length_bins, Shape.numBuckets, Sweep.start]))
  refine ⟨_, r6, by simp [MeterState.callsFor, hreq], ?_, recordings_conserved r6⟩
  simp [Emitter.pending, Output.countAt, countIn, LatencyHistogram.swapBin, Sweep.swap,
    Sweep.start, newAggregatingValueRecorder, LatencyHistogram.recordValue, hbin,
    newLatencyHistogram, recorderShape_numBuckets, addOne, UInt64.size]

end GocbMeter
