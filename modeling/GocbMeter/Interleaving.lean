import GocbMeter.HistogramRun
import GocbMeter.Run

/-!
# The meter under concurrent use

Callers of `ValueRecorder` and `RecordValue` run while the emitting goroutine runs
`generateOutput`. A `ValueRecorder` call is one step (its group's critical section), a
`RecordValue` call one atomic increment, and `generateOutput` a sequence of emitter
steps: it fixes the map's iteration order over the services, copies a group's pointers
under the group's lock in the map's order, and runs each recorder's `AggregateAndReset`
one atomic swap at a time. `Emitter` is where the emitting goroutine stands in that loop
nest, with what it holds.

`Inv` holds in every reachable state (`reachable_inv`): the registry, the recorder each
`ValueRecorder` call returned, and the emitter's bookkeeping.
-/

namespace GocbMeter

/-- The emitting goroutine's place in `generateOutput`: idle; between services, with the
services still to visit and the output so far; in the loop over the recorders of `s`,
with the pointers still to visit and its `serviceMap` so far; or inside the
`AggregateAndReset` of the recorder at `ptr`. -/
inductive Emitter
  | idle
  | services (todo : List Service) (out : Output)
  | recorders (s : Service) (todo : List Service) (out : Output) (ptrs : List ℕ)
      (serviceMap : List (String × Summary))
  | sweeping (s : Service) (todo : List Service) (out : Output) (ptr : ℕ) (ptrs : List ℕ)
      (serviceMap : List (String × Summary)) (sw : Sweep)

structure State extends MeterState where
  emitter : Emitter

def State.init (opts : Option AggregatingMeterOptions) : State := ⟨.init opts, .idle⟩

/-- The emitter's `atomic.SwapUint64` on bin `sw.next` of the recorder `r` at `ptr`. -/
def Store.swapBin (st : Store) (ptr : ℕ) (r : AggregatingValueRecorder) (sw : Sweep) : Store :=
  { st with heap := st.heap.set ptr ⟨r.peerName, (r.hist.swapBin sw).1⟩ }

/-- `if len(serviceMap) > 0 { output[serviceName] = serviceMap }`. -/
def Output.add (out : Output) (s : Service) (serviceMap : List (String × Summary)) : Output :=
  if serviceMap ≠ [] then ⟨out.emitInterval, mapSet out.services s serviceMap⟩ else out

/-- One atomic action of some goroutine. -/
inductive Step (k : MeterKeys) : State → State → Prop
  | valueRecorder (m : State) (name : String) (tags : List (String × String)) :
      Step k m ⟨m.toMeterState.step k (.valueRecorder name tags), m.emitter⟩
  | recordValue (m : State) (i : ℕ) (v : UInt64) :
      Step k m ⟨m.toMeterState.step k (.recordValue i v), m.emitter⟩
  | start (m : State) (pc : m.emitter = .idle) (order : List Service)
      (perm : order.Perm Service.all) :
      Step k m { m with emitter := .services order ⟨m.interval, []⟩ }
  | recorders (m : State) {s : Service} {todo : List Service} {out : Output}
      (pc : m.emitter = .services (s :: todo) out) (ptrs : List ℕ)
      (perm : ptrs.Perm (m.store.recorders s)) :
      Step k m { m with emitter :=
        if ptrs = [] then .services todo out else .recorders s todo out ptrs [] }
  | begin (m : State) {s : Service} {todo : List Service} {out : Output} {ptr : ℕ}
      {ptrs : List ℕ} {serviceMap : List (String × Summary)}
      (pc : m.emitter = .recorders s todo out (ptr :: ptrs) serviceMap) :
      Step k m { m with emitter := .sweeping s todo out ptr ptrs serviceMap .start }
  | swap (m : State) {s : Service} {todo : List Service} {out : Output} {ptr : ℕ}
      {ptrs : List ℕ} {serviceMap : List (String × Summary)} {sw : Sweep}
      (pc : m.emitter = .sweeping s todo out ptr ptrs serviceMap sw)
      {r : AggregatingValueRecorder} (hr : m.store.heap[ptr]? = some r)
      (inside : sw.next < r.hist.bins.length) :
      Step k m { m with
        store := m.store.swapBin ptr r sw
        emitter := .sweeping s todo out ptr ptrs serviceMap (r.hist.swapBin sw).2 }
  | getAndReset (m : State) {s : Service} {todo : List Service} {out : Output} {ptr : ℕ}
      {ptrs : List ℕ} {serviceMap : List (String × Summary)} {sw : Sweep}
      (pc : m.emitter = .sweeping s todo out ptr ptrs serviceMap sw)
      {r : AggregatingValueRecorder} (hr : m.store.heap[ptr]? = some r)
      (done : sw.next = r.hist.bins.length) :
      Step k m { m with
        emitter := .recorders s todo out ptrs
          (mapSet serviceMap r.peerName (summarize (r.hist.shape.snapshot sw.cum))) }
  | endService (m : State) {s : Service} {todo : List Service} {out : Output}
      {serviceMap : List (String × Summary)}
      (pc : m.emitter = .recorders s todo out [] serviceMap) :
      Step k m { m with emitter := .services todo (out.add s serviceMap) }
  | finish (m : State) {out : Output} (pc : m.emitter = .services [] out) :
      Step k m { m with emitter := .idle, outputs := m.outputs ++ [out] }

inductive Reachable (k : MeterKeys) (opts : Option AggregatingMeterOptions) : State → Prop
  | init : Reachable k opts (.init opts)
  | step {m m' : State} : Reachable k opts m → Step k m m' → Reachable k opts m'

/-! ## What the steps change -/

@[simp] theorem MeterState.step_valueRecorder (k : MeterKeys) (m : MeterState) (name : String)
    (tags : List (String × String)) :
    m.step k (.valueRecorder name tags) = { m with
      store := (valueRecorder k m.store name tags).2,
      callers := m.callers ++ [⟨name, tags, (valueRecorder k m.store name tags).1, 0⟩] } := rfl

theorem MeterState.step_recordValue (k : MeterKeys) (m : MeterState) (i : ℕ) (v : UInt64) :
    m.step k (.recordValue i v) = match m.callers[i]? with
      | some c => { m with
          store := m.store.recordValue c.handle v
          callers := m.callers.modify (fun c => { c with calls := c.calls + 1 }) i }
      | none => m := rfl

theorem lookup_eq_some_of_mem {α β : Type} [DecidableEq α] {l : List (α × β)} {a : α}
    {b : β}    (hnd : (l.map Prod.fst).Nodup) (h : (a, b) ∈ l) : l.lookup a = some b := by
  induction l with
  | nil => cases h
  | cons e l ih =>
    obtain ⟨q, y⟩ := e
    obtain ⟨hne, hnd⟩ := List.nodup_cons.mp hnd
    rcases List.mem_cons.mp h with he | hl
    · cases he; simp [List.lookup_cons]
    · have : a ≠ q := by rintro rfl; exact hne (List.mem_map.mpr ⟨_, hl, rfl⟩)
      simp [List.lookup_cons, beq_eq_false_iff_ne.mpr this, ih hnd hl]

theorem Registry.lookup_eq_some {st : Store} (hr : Registry st) {s : Service} {p : String}
    {ptr : ℕ} : (st.groups s).lookup p = some ptr ↔ (p, ptr) ∈ st.groups s :=
  ⟨mem_of_lookup_eq_some, lookup_eq_some_of_mem (hr.nodup s)⟩

/-- `Recorders()` copies distinct pointers. -/
theorem Registry.nodup_recorders {st : Store} (hr : Registry st) (s : Service) :
    (st.recorders s).Nodup :=
  (List.Nodup.of_map Prod.fst (hr.nodup s)).map_on fun x hx y hy hxy =>
    Prod.ext (hr.unique s s x.1 y.1 x.2 hx (hxy ▸ hy)).2 hxy

/-- A group entry names the recorder it points to. -/
theorem Registry.peerName_eq {st : Store} (hr : Registry st) {s : Service} {p : String}
    {ptr : ℕ} (h : (p, ptr) ∈ st.groups s) {r : AggregatingValueRecorder}
    (hr' : st.heap[ptr]? = some r) : r.peerName = p := by
  simpa [Store.names, hr'] using hr.name s p ptr h

theorem Store.lookup_getOrCreate (st : Store) (s0 : Service) (p0 : String) (s : Service)
    (p : String) : ((st.getOrCreate s0 p0).2.groups s).lookup p =
      ((st.groups s).lookup p).or (if s = s0 ∧ p = p0 then some st.heap.length else none) := by
  unfold getOrCreate
  split
  · next ptr h =>
    by_cases hs : s = s0 ∧ p = p0
    · obtain ⟨rfl, rfl⟩ := hs; simp [h]
    · simp [hs]
  · next h =>
    by_cases hs : s = s0
    · subst hs
      by_cases hp : p = p0
      · subst hp; simp [h, List.lookup_append]
      · simp [List.lookup_append, List.lookup_cons, beq_eq_false_iff_ne.mpr hp, hp]
    · simp [hs]

theorem Store.heap_getOrCreate (st : Store) (s : Service) (p : String) :
    (st.getOrCreate s p).2.heap = st.heap ++
      if (st.groups s).lookup p = none then [newAggregatingValueRecorder p] else [] := by
  unfold getOrCreate
  split <;> simp [*]

theorem Store.fst_getOrCreate (st : Store) (s : Service) (p : String) :
    ((st.getOrCreate s p).2.groups s).lookup p = some (st.getOrCreate s p).1 := by
  unfold getOrCreate
  split
  · next ptr h => exact h
  · next h => simp [h, List.lookup_append]

@[simp] theorem Store.groups_recordValue (st : Store) (h : Handle) (v : UInt64) :
    (st.recordValue h v).groups = st.groups := by
  cases h <;> rfl

@[simp] theorem Store.groups_swapBin (st : Store) (ptr : ℕ) (r : AggregatingValueRecorder)
    (sw : Sweep) : (st.swapBin ptr r sw).groups = st.groups := rfl

/-- Every recorder of the heap has the bins `newAggregatingValueRecorder` gives it. -/
theorem Registry.length_bins {st : Store} (hr : Registry st) {ptr : ℕ}
    {r : AggregatingValueRecorder} (hptr : st.heap[ptr]? = some r) :
    r.hist.bins.length = recorderShape.numBuckets := by
  obtain ⟨hlt, rfl⟩ := List.getElem?_eq_some_iff.mp hptr
  rw [LatencyHistogram.length_bins, hr.shape _ (List.getElem_mem hlt)]

theorem Registry.swapBin {st : Store} (hr : Registry st) {ptr : ℕ} {r : AggregatingValueRecorder}
    (hptr : st.heap[ptr]? = some r) (sw : Sweep) : Registry (st.swapBin ptr r sw) := by
  obtain ⟨hlt, rfl⟩ := List.getElem?_eq_some_iff.mp hptr
  exact hr.of_frame rfl (map_set_of_eq _ hlt rfl) (map_set_of_eq _ hlt rfl)

/-! ## The emitter's bookkeeping -/

/-- The services still to visit: distinct, and not yet in the output. -/
structure Todo (todo : List Service) (out : Output) : Prop where
  nodup : todo.Nodup
  fresh : ∀ s ∈ todo, s ∉ out.services.map Prod.fst

/-- The recorders of `s` still to visit: distinct pointers of its group, whose peers the
service map does not have yet. -/
structure Visit (g : Service → List (String × ℕ)) (s : Service) (ptrs : List ℕ)
    (serviceMap : List (String × Summary)) : Prop where
  nodup : ptrs.Nodup
  registered : ∀ ptr ∈ ptrs, ∃ p, (p, ptr) ∈ g s
  fresh : ∀ ptr ∈ ptrs, ∀ p, (p, ptr) ∈ g s → p ∉ serviceMap.map Prod.fst

def Emitter.Ok (g : Service → List (String × ℕ)) : Emitter → Prop
  | .idle => True
  | .services todo out => Todo todo out
  | .recorders s todo out ptrs serviceMap => Todo (s :: todo) out ∧ Visit g s ptrs serviceMap
  | .sweeping s todo out ptr ptrs serviceMap sw =>
    Todo (s :: todo) out ∧ Visit g s (ptr :: ptrs) serviceMap ∧
      sw.cum.getD (sw.cum.length - 1) 0 = sw.countSoFar ∧ sw.next ≤ recorderShape.numBuckets

/-- What every reachable state keeps: the registry; each `ValueRecorder` call holds the
no-op recorder when it named no group and the group's recorder of its peer otherwise;
and the emitter's bookkeeping. -/
structure Inv (k : MeterKeys) (m : State) : Prop where
  registry : Registry m.store
  noop : ∀ c ∈ m.callers, k.request? c.name c.tags = none → c.handle = .noop
  recorder : ∀ c ∈ m.callers, ∀ s p, k.request? c.name c.tags = some (s, p) →
    ∃ ptr, (m.store.groups s).lookup p = some ptr ∧ c.handle = .recorder ptr
  emitter : m.emitter.Ok m.store.groups

theorem Visit.grow {g g' : Service → List (String × ℕ)} {s : Service} {ptrs : List ℕ}
    {serviceMap : List (String × Summary)} (hv : Visit g s ptrs serviceMap)
    (hsub : ∀ s e, e ∈ g s → e ∈ g' s)
    (hnew : ∀ s e, e ∈ g' s → e ∈ g s ∨ ∀ s' p, (p, e.2) ∉ g s') :
    Visit g' s ptrs serviceMap := by
  refine ⟨hv.nodup, fun ptr hp => (hv.registered ptr hp).imp fun p => hsub s _,
    fun ptr hp p hm => ?_⟩
  rcases hnew s _ hm with hm | hfresh
  · exact hv.fresh ptr hp p hm
  · obtain ⟨q, hq⟩ := hv.registered ptr hp
    exact absurd hq (hfresh s q)

theorem Emitter.Ok.grow {g g' : Service → List (String × ℕ)} {e : Emitter} (he : e.Ok g)
    (hsub : ∀ s e, e ∈ g s → e ∈ g' s)
    (hnew : ∀ s e, e ∈ g' s → e ∈ g s ∨ ∀ s' p, (p, e.2) ∉ g s') : e.Ok g' := by
  cases e with
  | idle => trivial
  | services => exact he
  | recorders => exact ⟨he.1, he.2.grow hsub hnew⟩
  | sweeping => exact ⟨he.1, he.2.1.grow hsub hnew, he.2.2⟩

/-- A `ValueRecorder` call only adds group entries, each pointing at a new recorder. -/
theorem Registry.grow_valueRecorder {st : Store} (hr : Registry st) (k : MeterKeys)
    (name : String) (tags : List (String × String)) :
    (∀ s e, e ∈ st.groups s → e ∈ (GocbMeter.valueRecorder k st name tags).2.groups s) ∧
      ∀ s e, e ∈ (GocbMeter.valueRecorder k st name tags).2.groups s →
        e ∈ st.groups s ∨ ∀ s' p, (p, e.2) ∉ st.groups s' := by
  unfold GocbMeter.valueRecorder
  split
  · exact ⟨fun _ _ h => h, fun _ _ h => .inl h⟩
  · refine ⟨fun s e h => Store.mem_groups_getOrCreate.mpr (.inl h), fun s e h => ?_⟩
    rcases Store.mem_groups_getOrCreate.mp h with h | ⟨-, -, rfl⟩
    · exact .inl h
    · exact .inr fun s' p hm => lt_irrefl _ (hr.lt_of_mem hm)

theorem Inv.valueRecorder {k : MeterKeys} {m : State} (inv : Inv k m) (name : String)
    (tags : List (String × String)) :
    Inv k ⟨m.toMeterState.step k (.valueRecorder name tags), m.emitter⟩ := by
  have hr := inv.registry.valueRecorder k name tags
  obtain ⟨hsub, hnew⟩ := inv.registry.grow_valueRecorder k name tags
  refine ⟨hr, fun c hc => ?_, fun c hc => ?_, inv.emitter.grow hsub hnew⟩ <;>
    simp only [MeterState.step_valueRecorder, List.mem_append, List.mem_singleton] at hc <;>
    rcases hc with hc | rfl
  · exact inv.noop c hc
  · intro hnone
    simp [GocbMeter.valueRecorder, hnone]
  · intro s p hsp
    obtain ⟨ptr, hl, hh⟩ := inv.recorder c hc s p hsp
    exact ⟨ptr, hr.lookup_eq_some.mpr (hsub s _ (mem_of_lookup_eq_some hl)), hh⟩
  · intro s p hsp
    simp only [MeterState.step_valueRecorder, GocbMeter.valueRecorder, hsp]
    exact ⟨_, Store.fst_getOrCreate .., rfl⟩

theorem Inv.recordValue {k : MeterKeys} {m : State} (inv : Inv k m) (i : ℕ) (v : UInt64) :
    Inv k ⟨m.toMeterState.step k (.recordValue i v), m.emitter⟩ := by
  rw [MeterState.step_recordValue]
  split
  · next c _ =>
    have hmem : ∀ c', c' ∈ m.callers.modify (fun c => { c with calls := c.calls + 1 }) i →
        ∃ c ∈ m.callers, c'.name = c.name ∧ c'.tags = c.tags ∧ c'.handle = c.handle := by
      intro c' hc'
      obtain ⟨j, hj, rfl⟩ := List.getElem_of_mem hc'
      simp only [List.getElem_modify]
      exact ⟨_, List.getElem_mem (by simpa using hj), by split <;> simp⟩
    refine ⟨inv.registry.recordValue _ v, fun c' hc' hnone => ?_, fun c' hc' s p hsp => ?_,
      by simpa using inv.emitter⟩
    · obtain ⟨c, hc, hn, ht, hh⟩ := hmem c' hc'
      rw [hh]; exact inv.noop c hc (hn ▸ ht ▸ hnone)
    · obtain ⟨c, hc, hn, ht, hh⟩ := hmem c' hc'
      simpa [hh] using inv.recorder c hc s p (hn ▸ ht ▸ hsp)
  · exact inv

theorem Todo.tail {s : Service} {todo : List Service} {out : Output} (h : Todo (s :: todo) out) :
    Todo todo out :=
  ⟨(List.nodup_cons.mp h.nodup).2, fun s' hs' => h.fresh s' (List.mem_cons_of_mem _ hs')⟩

theorem Todo.add {s : Service} {todo : List Service} {out : Output} (h : Todo (s :: todo) out)
    (serviceMap : List (String × Summary)) : Todo todo (out.add s serviceMap) := by
  refine ⟨h.tail.nodup, fun s' hs' => ?_⟩
  have hne : s' ≠ s := fun he => (List.nodup_cons.mp h.nodup).1 (he ▸ hs')
  unfold Output.add
  split
  · rw [mapSet_of_not_mem (h.fresh s (List.mem_cons_self _ _))]
    simpa [hne] using h.tail.fresh s' hs'
  · exact h.tail.fresh s' hs'

theorem Visit.getAndReset {st : Store} (hr : Registry st) {s : Service} {ptr : ℕ}
    {ptrs : List ℕ} {serviceMap : List (String × Summary)}
    (hv : Visit st.groups s (ptr :: ptrs) serviceMap) {r : AggregatingValueRecorder}
    (hptr : st.heap[ptr]? = some r) (summary : Summary) :
    Visit st.groups s ptrs (mapSet serviceMap r.peerName summary) := by
  obtain ⟨hnot, hnd⟩ := List.nodup_cons.mp hv.nodup
  obtain ⟨q, hq⟩ := hv.registered ptr (List.mem_cons_self _ _)
  refine ⟨hnd, fun p hp => hv.registered p (List.mem_cons_of_mem _ hp), fun ptr' hp p hm => ?_⟩
  have hne : p ≠ r.peerName := by
    rintro rfl
    rw [hr.peerName_eq hq hptr] at hm
    have := (hr.lookup_eq_some.mpr hm).symm.trans (hr.lookup_eq_some.mpr hq)
    exact hnot (Option.some.inj this ▸ hp)
  simpa [mapSet, hne] using hv.fresh ptr' (List.mem_cons_of_mem _ hp) p hm

theorem Inv.withEmitter {k : MeterKeys} {m : State} (inv : Inv k m) (e : Emitter)
    (outputs : List Output) (he : e.Ok m.store.groups) :
    Inv k { m with emitter := e, outputs := outputs } :=
  ⟨inv.registry, inv.noop, inv.recorder, he⟩

theorem Inv.step {k : MeterKeys} {m m' : State} (inv : Inv k m) (h : Step k m m') :
    Inv k m' := by
  have he := inv.emitter
  cases h with
  | valueRecorder name tags => exact inv.valueRecorder name tags
  | recordValue i v => exact inv.recordValue i v
  | start pc order perm =>
    exact inv.withEmitter _ m.outputs ⟨perm.nodup_iff.mpr (by decide), by simp⟩
  | recorders pc ptrs perm =>
    rw [pc] at he
    refine inv.withEmitter _ m.outputs ?_
    split
    · exact he.tail
    · exact ⟨he, perm.nodup_iff.mpr (inv.registry.nodup_recorders _),
        fun ptr hp => by simpa [Store.recorders] using perm.subset hp, by simp⟩
  | begin pc =>
    rw [pc] at he
    exact inv.withEmitter _ m.outputs ⟨he.1, he.2, rfl, Nat.zero_le _⟩
  | swap pc hr inside =>
    rw [pc] at he
    have hlen := inv.registry.length_bins hr
    refine ⟨inv.registry.swapBin hr _, inv.noop, inv.recorder, he.1, he.2.1, ?_, ?_⟩
    · simp [LatencyHistogram.swapBin, Sweep.swap]
    · simp only [LatencyHistogram.swapBin, Sweep.swap]
      omega
  | getAndReset pc hr done =>
    rw [pc] at he
    exact inv.withEmitter _ m.outputs ⟨he.1, he.2.1.getAndReset inv.registry hr _⟩
  | endService pc =>
    rw [pc] at he
    exact inv.withEmitter _ m.outputs (he.1.add _)
  | finish pc => exact inv.withEmitter _ _ trivial

theorem reachable_inv {k : MeterKeys} {opts : Option AggregatingMeterOptions} {m : State}
    (h : Reachable k opts m) : Inv k m := by
  induction h with
  | init => exact ⟨Registry.empty, by simp [State.init, MeterState.init],
      by simp [State.init, MeterState.init], trivial⟩
  | step _ step ih => exact ih.step step

end GocbMeter
