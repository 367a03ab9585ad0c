import GocbMeter.Conservation

/-!
# The sequential meter is one schedule of the concurrent one

`MeterState.step` runs `generateOutput` at once. Run as the emitter's steps with nothing
in between, visiting the services in `Service.all` order and each group's recorders in
the order they were inserted, it gives the same output and the same store, so every run
of `Run` is a run of `Interleaving` (`reachable_after`). What holds of every reachable
state then holds of every sequential run: between two `generateOutput` calls every
recording is in a finished output or still live (`sequential_recordings_conserved`).

The same schedules show that the emitter never gets stuck: from any reachable state its own
steps (`EmitterStep`), with no application call between them, finish the `generateOutput`
under way (`Reachable.finishOutput`).
-/

namespace GocbMeter

theorem set_self_of_getElem? {α : Type} {l : List α} {i : ℕ} {a : α} (h : l[i]? = some a) :
    l.set i a = l :=
  List.ext_getElem? fun j => by
    rw [List.getElem?_set]
    split
    · next hij => subst hij; simp [(List.getElem?_eq_some_iff.mp h).1, h]
    · rfl

theorem Output.add_mk (i : ℤ) (out : List (Service × List (String × Summary))) (s : Service)
    (serviceMap : List (String × Summary)) :
    (Output.mk i out).add s serviceMap =
      ⟨i, if serviceMap ≠ [] then mapSet out s serviceMap else out⟩ := by
  unfold Output.add
  split <;> rfl

/-- A step of the emitter: one that moves it. The application's steps leave the emitter
where it is; each of its own steps moves it on. -/
def EmitterStep (k : MeterKeys) (m m' : State) : Prop := Step k m m' ∧ m'.emitter ≠ m.emitter

theorem Sweep.swap_ne (bins : List ℕ) (sw : Sweep) : (sw.swap bins).2 ≠ sw := fun h => by
  have := congrArg Sweep.next h
  simp [Sweep.swap] at this

/-- The emitter never touches the callers. -/
theorem EmitterStep.callers {k : MeterKeys} {m m' : State} (h : EmitterStep k m m') :
    m'.callers = m.callers := by
  obtain ⟨hs, hne⟩ := h
  cases hs with
  | valueRecorder => exact absurd rfl hne
  | recordValue => exact absurd rfl hne
  | _ => rfl

/-- The emitter's `GetAndResetValues` ends: the snapshot goes into the service map. -/
theorem EmitterStep.getAndReset_step {k : MeterKeys} {m : State} {s : Service}
    {todo : List Service} {out : Output} {ptr : ℕ} {ptrs : List ℕ}
    {serviceMap : List (String × Summary)} {sw : Sweep}
    (pc : m.emitter = .sweeping s todo out ptr ptrs serviceMap sw) {r : AggregatingValueRecorder}
    (hr : m.store.heap[ptr]? = some r) (done : sw.next = r.hist.bins.length) :
    EmitterStep k m { m with
      emitter := .recorders s todo out ptrs
        (mapSet serviceMap r.peerName (summarize (r.hist.shape.snapshot sw.cum))) } :=
  ⟨.getAndReset _ pc hr done, by simp [pc]⟩

theorem EmitterStep.callers_of_path {k : MeterKeys} {m m' : State}
    (path : Relation.ReflTransGen (EmitterStep k) m m') : m'.callers = m.callers := by
  induction path with
  | refl => rfl
  | tail _ hs ih => exact hs.callers.trans ih

/-- A recorder the emitter has still to visit is on the heap. -/
theorem Registry.heap_of_visit {st : Store} (hr : Registry st) {s : Service} {ptr : ℕ}
    {ptrs : List ℕ} {serviceMap : List (String × Summary)}
    (hv : Visit st.groups s (ptr :: ptrs) serviceMap) : ∃ r, st.heap[ptr]? = some r :=
  let ⟨_, hq⟩ := hv.registered ptr (List.mem_cons_self _ _)
  ⟨_, List.getElem?_eq_getElem (hr.lt_of_mem hq)⟩

section Schedule

variable {k : MeterKeys} {opts : Option AggregatingMeterOptions}

theorem Reachable.of_path {m m' : State} (h : Reachable k opts m)
    (path : Relation.ReflTransGen (Step k) m m') : Reachable k opts m' := by
  induction path with
  | refl => exact h
  | tail _ hs ih => exact ih.step hs

theorem Reachable.of_emitterPath {m m' : State} (h : Reachable k opts m)
    (path : Relation.ReflTransGen (EmitterStep k) m m') : Reachable k opts m' :=
  h.of_path (path.mono fun _ _ hs => hs.1)

/-- `AggregateAndReset`'s loop on the recorder at `ptr`, `n` swaps of the emitter in a row. -/
theorem EmitterStep.swaps {s : Service} {todo : List Service} {out : Output} {ptr : ℕ}
    {ptrs : List ℕ} {serviceMap : List (String × Summary)} :
    ∀ (n : ℕ) {m : State} {sw : Sweep} {r : AggregatingValueRecorder},
      m.emitter = .sweeping s todo out ptr ptrs serviceMap sw → m.store.heap[ptr]? = some r →
      sw.next + n ≤ r.hist.bins.length →
      ∃ r' : AggregatingValueRecorder, r'.peerName = r.peerName ∧
        r'.hist.shape = r.hist.shape ∧
        r'.hist.bins = (Sweep.run n r.hist.bins sw).1 ∧
        Relation.ReflTransGen (EmitterStep k) m { m with
          store := { m.store with heap := m.store.heap.set ptr r' }
          emitter := .sweeping s todo out ptr ptrs serviceMap (Sweep.run n r.hist.bins sw).2 }
  | 0, m, sw, r, pc, hr, _ => by
    refine ⟨r, rfl, rfl, rfl, ?_⟩
    rw [set_self_of_getElem? hr, Sweep.run, ← pc]
  | n + 1, m, sw, r, pc, hr, hn => by
    have hlt := (List.getElem?_eq_some_iff.mp hr).1
    have hswap : EmitterStep k m { m with
        store := m.store.swapBin ptr r sw
        emitter := .sweeping s todo out ptr ptrs serviceMap (r.hist.swapBin sw).2 } :=
      ⟨.swap _ pc hr (by omega), by simp [pc, LatencyHistogram.swapBin, Sweep.swap_ne]⟩
    obtain ⟨r', hname, hshape, hbins, hrest⟩ := EmitterStep.swaps n
      (m := { m with
        store := m.store.swapBin ptr r sw
        emitter := .sweeping s todo out ptr ptrs serviceMap (r.hist.swapBin sw).2 })
      (r := ⟨r.peerName, (r.hist.swapBin sw).1⟩) rfl
      (by simp [Store.swapBin, hlt]) (by simp [LatencyHistogram.swapBin, Sweep.swap]; omega)
    exact ⟨r', hname, hshape, hbins, .head hswap (by simpa [Store.swapBin, List.set_set] using hrest)⟩

/-- The loop over one group's recorders, each `GetAndResetValues` run by the emitter alone. -/
theorem EmitterStep.getAndResetAll {s : Service} {todo : List Service} {out : Output} :
    ∀ (ptrs : List ℕ) {serviceMap : List (String × Summary)} {m : State},
      Reachable k opts m →
      m.emitter = .recorders s todo out ptrs serviceMap →
      Relation.ReflTransGen (EmitterStep k) m { m with
        store := (m.store.getAndResetAll ptrs serviceMap).2
        emitter := .recorders s todo out [] (m.store.getAndResetAll ptrs serviceMap).1 }
  | [], serviceMap, m, h, pc => by
    rw [Store.getAndResetAll, ← pc]
  | ptr :: ptrs, serviceMap, m, h, pc => by
    have inv := reachable_inv h
    have he := inv.emitter
    rw [pc] at he
    obtain ⟨r, hr⟩ := inv.registry.heap_of_visit he.2
    have hlt := (List.getElem?_eq_some_iff.mp hr).1
    have hbegin : EmitterStep k m
        { m with emitter := .sweeping s todo out ptr ptrs serviceMap .start } :=
      ⟨.begin _ pc, by simp [pc]⟩
    obtain ⟨r', hname, hshape, hbins, hsweep⟩ := EmitterStep.swaps (k := k) r.hist.bins.length
      (m := { m with emitter := .sweeping s todo out ptr ptrs serviceMap .start }) rfl hr
      (by simp [Sweep.start])
    have hr' : r' = r.getAndResetValues.2 := by
      obtain ⟨p', ⟨shape', bins', hlen⟩⟩ := r'
      simp only at hname hshape hbins
      subst hname hshape hbins
      rfl
    subst hr'
    have hpath := (Relation.ReflTransGen.head hbegin hsweep).tail
      (EmitterStep.getAndReset_step (r := r.getAndResetValues.2) rfl (by simp [hlt])
        (by simp [Sweep.start, hbins]))
    rw [Store.getAndResetAll, hr]
    exact hpath.trans (EmitterStep.getAndResetAll ptrs (h.of_emitterPath hpath) rfl)

/-- The loop over the services. -/
theorem EmitterStep.generateServices :
    ∀ (ss : List Service) {i : ℤ} {out : List (Service × List (String × Summary))}
      {m : State},
      Reachable k opts m → m.emitter = .services ss ⟨i, out⟩ →
      Relation.ReflTransGen (EmitterStep k) m { m with
        store := (m.store.generateServices ss out).2
        emitter := .services [] ⟨i, (m.store.generateServices ss out).1⟩ }
  | [], i, out, m, h, pc => by
    rw [Store.generateServices, ← pc]
  | s :: ss, i, out, m, h, pc => by
    have hrec : EmitterStep k m _ :=
      ⟨.recorders _ pc (m.store.recorders s) (List.Perm.refl _), by rw [pc]; split <;> simp⟩
    rw [Store.generateServices]
    split
    · next hnil =>
      simp only [hnil, if_true] at hrec
      exact .head hrec (EmitterStep.generateServices ss (h.step hrec.1) rfl)
    · next hne =>
      simp only [hne, if_false] at hrec
      have hpath := (Relation.ReflTransGen.single hrec).trans
        (EmitterStep.getAndResetAll _ (h.step hrec.1) rfl)
      have hpath' := hpath.tail ⟨.endService _ rfl, by simp⟩
      exact hpath'.trans (EmitterStep.generateServices ss (h.of_emitterPath hpath')
        (congrArg (Emitter.services ss) (Output.add_mk ..)))

theorem Reachable.generateOutput {m : State} (h : Reachable k opts m) (idle : m.emitter = .idle) :
    Reachable k opts ⟨m.toMeterState.step k .generateOutput, .idle⟩ :=
  let hstart := h.step (.start _ idle _ (List.Perm.refl _))
  (hstart.of_emitterPath (EmitterStep.generateServices Service.all hstart rfl)).step
    (.finish _ rfl)

/-- From the service loop, the emitter finishes the run on its own. -/
theorem Reachable.finishFromServices {m : State} {todo : List Service} {out : Output}
    (h : Reachable k opts m) (pc : m.emitter = .services todo out) :
    ∃ m' : State, ∃ o : Output, Relation.ReflTransGen (EmitterStep k) m m' ∧
      m'.emitter = .idle ∧ m'.outputs = m.outputs ++ [o] :=
  ⟨_, _, (EmitterStep.generateServices todo h pc).tail ⟨.finish _ rfl, by simp⟩, rfl, rfl⟩

/-- From a group's recorder loop, the emitter finishes the run on its own. -/
theorem Reachable.finishFromRecorders {m : State} {s : Service} {todo : List Service}
    {out : Output} {ptrs : List ℕ} {serviceMap : List (String × Summary)}
    (h : Reachable k opts m) (pc : m.emitter = .recorders s todo out ptrs serviceMap) :
    ∃ m' : State, ∃ o : Output, Relation.ReflTransGen (EmitterStep k) m m' ∧
      m'.emitter = .idle ∧ m'.outputs = m.outputs ++ [o] := by
  have hpath := (EmitterStep.getAndResetAll ptrs h pc).tail ⟨.endService _ rfl, by simp⟩
  obtain ⟨m', o, hrest, hidle, hout⟩ := (h.of_emitterPath hpath).finishFromServices rfl
  exact ⟨m', o, hpath.trans hrest, hidle, hout⟩

/-- From any reachable state with a `generateOutput` under way, the emitter's own steps, with
no application call between them, finish it: they reach an idle state with one output more,
and the callers as they were. -/
theorem Reachable.finishOutput {m : State} (h : Reachable k opts m) (busy : m.emitter ≠ .idle) :
    ∃ m' : State, ∃ o : Output, Relation.ReflTransGen (EmitterStep k) m m' ∧
      m'.emitter = .idle ∧ m'.callers = m.callers ∧ m'.outputs = m.outputs ++ [o] := by
  suffices ∃ m' : State, ∃ o : Output, Relation.ReflTransGen (EmitterStep k) m m' ∧
      m'.emitter = .idle ∧ m'.outputs = m.outputs ++ [o] by
    obtain ⟨m', o, path, hidle, hout⟩ := this
    exact ⟨m', o, path, hidle, EmitterStep.callers_of_path path, hout⟩
  have inv := reachable_inv h
  have he := inv.emitter
  cases hem : m.emitter with
  | idle => exact absurd hem busy
  | services => exact h.finishFromServices hem
  | recorders => exact h.finishFromRecorders hem
  | sweeping s todo out ptr ptrs serviceMap sw =>
    -- the sweep under way runs to the end of the bins, then `GetAndResetValues` returns
    rw [hem] at he
    obtain ⟨r, hr⟩ := inv.registry.heap_of_visit he.2.1
    have hnext : sw.next ≤ r.hist.bins.length := inv.registry.length_bins hr ▸ he.2.2.2
    obtain ⟨r', -, -, hbins, hsweep⟩ := EmitterStep.swaps (k := k)
      (r.hist.bins.length - sw.next) hem hr (by omega)
    have hpath := hsweep.tail (EmitterStep.getAndReset_step (r := r') rfl
      (by simp [(List.getElem?_eq_some_iff.mp hr).1]) (by simp [hbins]; omega))
    obtain ⟨m', o, hrest, hidle, hout⟩ := (h.of_emitterPath hpath).finishFromRecorders rfl
    exact ⟨m', o, hpath.trans hrest, hidle, hout⟩

/-- The operations of the sequential meter, one after another, from any reachable state
with no `generateOutput` under way. -/
theorem Reachable.run :
    ∀ (ops : List MeterOp) {m : MeterState}, Reachable k opts ⟨m, .idle⟩ →
      Reachable k opts ⟨ops.foldl (MeterState.step k) m, .idle⟩
  | [], _, h => h
  | op :: ops, _, h => Reachable.run ops <| by
    cases op with
    | valueRecorder name tags => exact h.step (.valueRecorder _ name tags)
    | recordValue i v => exact h.step (.recordValue _ i v)
    | generateOutput => exact h.generateOutput rfl

end Schedule

theorem finishOutput_after_start :
    ∃ m : State, Reachable exampleKeys none m ∧ m.emitter ≠ .idle ∧
      ∃ m' : State, ∃ o : Output, Relation.ReflTransGen (EmitterStep exampleKeys) m m' ∧
        m'.emitter = .idle ∧ m'.callers = m.callers ∧ m'.outputs = m.outputs ++ [o] := by
  have h := (@Reachable.init exampleKeys none).step (.start _ rfl Service.all (List.Perm.refl _))
  have busy : Emitter.services Service.all ⟨(State.init none).interval, []⟩ ≠ .idle := nofun
  exact ⟨_, h, busy, h.finishOutput busy⟩

/-- Every run of the sequential meter is a schedule of the concurrent one, ending with no
`generateOutput` under way. -/
theorem reachable_after (k : MeterKeys) (opts : Option AggregatingMeterOptions)
    (ops : List MeterOp) : Reachable k opts ⟨MeterState.after k opts ops, .idle⟩ :=
  Reachable.run ops .init

/-- Every run of the sequential meter is a schedule of the concurrent one, and in it every
`RecordValue` call on a recorder returned for `(s, p)` is in the `total_count` under
`[s][p]` of exactly one output so far, or still in that recorder's bins, while those calls
number fewer than `2^64`. -/
theorem sequential_recordings_conserved (k : MeterKeys) (opts : Option AggregatingMeterOptions)
    (ops : List MeterOp) (s : Service) (p : String)
    (hw : (MeterState.after k opts ops).callsFor k s p < UInt64.size) :
    Reachable k opts ⟨MeterState.after k opts ops, .idle⟩ ∧
      (MeterState.after k opts ops).callsFor k s p =
        (MeterState.after k opts ops).reported s p +
          (MeterState.after k opts ops).store.live s p := by
  have h := reachable_after k opts ops
  refine ⟨h, ?_⟩
  simpa [State.held, Emitter.pending] using reachable_conserved h s p hw

theorem sequential_recordings_conserved_one_interval :
    (MeterState.after exampleKeys none [.valueRecorder "responses"
        [("service", "kv"), ("peer", "node1")], .recordValue 0 1000, .generateOutput]).callsFor
        exampleKeys .kv "node1" < UInt64.size ∧
      Reachable exampleKeys none ⟨MeterState.after exampleKeys none [.valueRecorder "responses"
        [("service", "kv"), ("peer", "node1")], .recordValue 0 1000, .generateOutput], .idle⟩ ∧
      (MeterState.after exampleKeys none [.valueRecorder "responses"
        [("service", "kv"), ("peer", "node1")], .recordValue 0 1000, .generateOutput]).callsFor
        exampleKeys .kv "node1" =
      (MeterState.after exampleKeys none [.valueRecorder "responses"
        [("service", "kv"), ("peer", "node1")], .recordValue 0 1000, .generateOutput]).reported
        .kv "node1" +
      (MeterState.after exampleKeys none [.valueRecorder "responses"
        [("service", "kv"), ("peer", "node1")], .recordValue 0 1000,
        .generateOutput]).store.live .kv "node1" := by
  have hreq : exampleKeys.request? "responses" [("service", "kv"), ("peer", "node1")] =
      some (.kv, "node1") := (exampleKeys.request?_eq_some).mpr ⟨rfl, rfl, rfl⟩
  have hw : (MeterState.after exampleKeys none [.valueRecorder "responses"
      [("service", "kv"), ("peer", "node1")], .recordValue 0 1000, .generateOutput]).callsFor
      exampleKeys .kv "node1" < UInt64.size := by
    simp [MeterState.after, MeterState.step, MeterState.callsFor, MeterState.init, hreq]
  exact ⟨hw, sequential_recordings_conserved _ _ _ _ _ hw⟩

end GocbMeter
