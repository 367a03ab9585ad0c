import GocbMeter.Histogram
import Mathlib.Data.List.Nodup

/-!
# The aggregating meter

`AggregatingMeter`, `aggregatingMeterGroup` and the no-op recorder of
`scope_searchquery.go`. Recorders live in a heap; a group maps peer names to
pointers into it, as the Go maps do. Go's map iteration order is unspecified; the
sequential `generateOutput` here visits services in `Service.all` order and a group's
recorders in insertion order, and the interleaved emitter of `Interleaving` allows any.
-/

namespace GocbMeter

/-- The keys of `valueRecorderGroups`, fixed at construction. -/
inductive Service
  | kv
  | views
  | query
  | search
  | analytics
  | management
  deriving DecidableEq, Repr

def Service.all : List Service := [.kv, .views, .query, .search, .analytics, .management]

theorem Service.mem_all (s : Service) : s ∈ Service.all := by cases s <;> decide

/-- The meter's string constants, declared elsewhere in the package. The six service
names are the keys of one map literal, so Go requires them distinct; the emitted
output keeps `meta` apart from them. -/
structure MeterKeys where
  nameResponses : String
  attribServiceKey : String
  attribPeerName : String
  serviceName : Service → String
  serviceName_injective : Function.Injective serviceName
  serviceName_ne_meta : ∀ s, serviceName s ≠ "meta"

/-- `am.valueRecorderGroups[service]`, read for its presence. -/
def MeterKeys.serviceOf? (k : MeterKeys) (name : String) : Option Service :=
  Service.all.find? fun s => k.serviceName s = name

theorem MeterKeys.serviceOf?_eq_some (k : MeterKeys) {name : String} {s : Service} :
    k.serviceOf? name = some s ↔ k.serviceName s = name := by
  constructor
  · intro h
    simpa using List.find?_some h
  · rintro rfl
    obtain ⟨s', hs', hname⟩ : ∃ s', k.serviceOf? (k.serviceName s) = some s' ∧
        k.serviceName s' = k.serviceName s := by
      cases hf : k.serviceOf? (k.serviceName s) with
      | none =>
        rw [serviceOf?, List.find?_eq_none] at hf
        exact absurd (Service.mem_all s) fun hm => by simpa using hf s hm
      | some s' => exact ⟨s', rfl, by simpa using List.find?_some hf⟩
    rw [hs', k.serviceName_injective hname]

/-- A Go map as the list of its entries: `m[key] = v` replaces or adds. -/
def mapSet {κ α : Type} [DecidableEq κ] (m : List (κ × α)) (key : κ) (v : α) :
    List (κ × α) :=
  m.filter (fun e => e.1 ≠ key) ++ [(key, v)]

/-- The recorders of the six groups: a heap of recorders, and for each service the
`recorders` map of its group from peer name to a pointer into the heap. -/
structure Store where
  heap : List AggregatingValueRecorder
  groups : Service → List (String × ℕ)

def Store.empty : Store := ⟨[], fun _ => []⟩

/-- What `ValueRecorder` returns: the no-op recorder, or a pointer to one of the heap. -/
inductive Handle
  | noop
  | recorder (ptr : ℕ)
  deriving DecidableEq, Repr

/-- The checks of `AggregatingMeter.ValueRecorder`, in its order: the metric name, a
service tag naming one of the groups, a peer tag. -/
def MeterKeys.request? (k : MeterKeys) (name : String) (tags : List (String × String)) :
    Option (Service × String) :=
  if name ≠ k.nameResponses then none else
  match tags.lookup k.attribServiceKey with
  | none => none
  | some service =>
    match k.serviceOf? service with
    | none => none
    | some s => (tags.lookup k.attribPeerName).map (s, ·)

/-- The critical section of `ValueRecorder` under the group's lock: the recorder of
`peerName`, created and inserted if the group has none. -/
def Store.getOrCreate (st : Store) (s : Service) (peerName : String) : ℕ × Store :=
  match (st.groups s).lookup peerName with
  | some ptr => (ptr, st)
  | none =>
    (st.heap.length, ⟨st.heap ++ [newAggregatingValueRecorder peerName],
      Function.update st.groups s (st.groups s ++ [(peerName, st.heap.length)])⟩)

/-- `AggregatingMeter.ValueRecorder`. -/
def valueRecorder (k : MeterKeys) (st : Store) (name : String) (tags : List (String × String)) :
    Handle × Store :=
  match k.request? name tags with
  | none => (.noop, st)
  | some (s, peerName) =>
    let (ptr, st') := st.getOrCreate s peerName
    (.recorder ptr, st')

/-- `RecordValue` on a returned recorder; the no-op recorder discards the value. -/
def Store.recordValue (st : Store) : Handle → UInt64 → Store
  | .noop, _ => st
  | .recorder ptr, v =>
    { st with heap := st.heap.modify (fun r => ⟨r.peerName, r.hist.recordValue v⟩) ptr }

/-- `aggregatingMeterGroup.Recorders`: a copy of the group's pointers. -/
def Store.recorders (st : Store) (s : Service) : List ℕ := (st.groups s).map Prod.snd

/-- The map `generateOutput` returns: `meta` and one entry per service with recorders. -/
structure Output where
  emitInterval : ℤ
  services : List (Service × List (String × Summary))

/-- The inner loop of `generateOutput`: `serviceMap[recorder.peerName] =
recorder.GetAndResetValues()` for each pointer. -/
def Store.getAndResetAll (st : Store) : List ℕ → List (String × Summary) →
    List (String × Summary) × Store
  | [], m => (m, st)
  | ptr :: ptrs, m =>
    match st.heap[ptr]? with
    | some r =>
      let (summary, r') := r.getAndResetValues
      Store.getAndResetAll { st with heap := st.heap.set ptr r' } ptrs (mapSet m r.peerName summary)
    | none => Store.getAndResetAll st ptrs m

/-- The outer loop of `generateOutput`, over the services still to visit. -/
def Store.generateServices (st : Store) :
    List Service → List (Service × List (String × Summary)) →
    List (Service × List (String × Summary)) × Store
  | [], out => (out, st)
  | s :: ss, out =>
    if st.recorders s = [] then st.generateServices ss out else
    let (serviceMap, st') := st.getAndResetAll (st.recorders s) []
    st'.generateServices ss (if serviceMap ≠ [] then mapSet out s serviceMap else out)

def Store.generateOutput (st : Store) (interval : ℤ) : Output × Store :=
  let (services, st') := st.generateServices Service.all []
  (⟨interval, services⟩, st')

/-- `len(jsonData)`. -/
def Output.size (o : Output) : ℕ := 1 + o.services.length

/-- `time.Duration` of `AggregatingMeterOptions`, in nanoseconds. -/
structure AggregatingMeterOptions where
  emitInterval : ℤ

/-- `NewAggregatingMeter`: a nil or zero interval means ten minutes. -/
def newAggregatingMeter (opts : Option AggregatingMeterOptions) : ℤ × Store :=
  let interval := (opts.getD ⟨0⟩).emitInterval
  (if interval = 0 then 10 * 60 * 1000000000 else interval, Store.empty)

/-! ## What the loops compute -/

theorem mapSet_of_not_mem {κ α : Type} [DecidableEq κ] {m : List (κ × α)} {key : κ}
    (h : key ∉ m.map Prod.fst) (v : α) : mapSet m key v = m ++ [(key, v)] := by
  rw [mapSet, List.filter_eq_self.mpr]
  intro e he
  simp only [ne_eq, decide_eq_true_eq]
  rintro rfl
  exact h (List.mem_map_of_mem Prod.fst he)

theorem map_set_of_eq {α β : Type} (f : α → β) {l : List α} {i : ℕ} (h : i < l.length)
    {a : α}    (ha : f a = f (l.get ⟨i, h⟩)) : (l.set i a).map f = l.map f := by
  refine List.ext_getElem (by simp) fun n _ _ => ?_
  simp only [List.getElem_map, List.getElem_set]
  split
  · subst n; exact ha
  · rfl

@[simp] theorem peerName_getAndResetValues (r : AggregatingValueRecorder) :
    r.getAndResetValues.2.peerName = r.peerName := rfl

/-- The peer names of the heap, by pointer. -/
def Store.names (st : Store) : List String := st.heap.map (·.peerName)

/-- The peer names behind some pointers. -/
def Store.peerNames (st : Store) (ptrs : List ℕ) : List String :=
  ptrs.filterMap (st.names[·]?)

/-- What the code keeps true of its groups: a key is the name of the recorder it points
to, keys are unique, no recorder is in two places, and every recorder has the shape
`newAggregatingValueRecorder` gives it. -/
structure Registry (st : Store) : Prop where
  name : ∀ s p ptr, (p, ptr) ∈ st.groups s → st.names[ptr]? = some p
  nodup : ∀ s, ((st.groups s).map Prod.fst).Nodup
  unique : ∀ s s' p p' ptr,
    (p, ptr) ∈ st.groups s → (p', ptr) ∈ st.groups s' → s = s' ∧ p = p'
  shape : ∀ r ∈ st.heap, r.hist.shape = recorderShape

theorem Registry.empty : Registry Store.empty :=
  ⟨by simp [Store.empty], by simp [Store.empty], by simp [Store.empty], by simp [Store.empty]⟩

theorem filterMap_names {names : List String} {es : List (String × ℕ)}
    (h : ∀ e ∈ es, names[e.2]? = some e.1) :
    (es.map Prod.snd).filterMap (names[·]?) = es.map Prod.fst := by
  induction es with
  | nil => rfl
  | cons e es ih =>
    simp only [List.map_cons, List.filterMap_cons, h e (List.mem_cons_self _ _),
      ih fun e' he' => h e' (List.mem_cons_of_mem _ he')]

theorem Registry.peerNames_recorders {st : Store} (hr : Registry st) (s : Service) :
    st.peerNames (st.recorders s) = (st.groups s).map Prod.fst :=
  filterMap_names fun e he => hr.name s e.1 e.2 he

theorem Store.getAndResetAll_groups (st : Store) (ptrs : List ℕ) (m : List (String × Summary)) :
    (st.getAndResetAll ptrs m).2.groups = st.groups ∧
      (st.getAndResetAll ptrs m).2.names = st.names ∧
      (st.getAndResetAll ptrs m).2.heap.map (·.hist.shape) = st.heap.map (·.hist.shape) := by
  induction ptrs generalizing st m with
  | nil => exact ⟨rfl, rfl, rfl⟩
  | cons ptr ptrs ih =>
    rw [getAndResetAll]
    split
    · next r hr =>
      obtain ⟨hg, hh, hs⟩ := ih ⟨st.heap.set ptr r.getAndResetValues.2, st.groups⟩
        (mapSet m r.peerName r.getAndResetValues.1)
      obtain ⟨hlt, rfl⟩ := List.getElem?_eq_some_iff.mp hr
      exact ⟨hg, hh.trans (map_set_of_eq _ hlt (peerName_getAndResetValues _)),
        hs.trans (map_set_of_eq _ hlt rfl)⟩
    · exact ih st m

theorem Store.getAndResetAll_keys (st : Store) (ptrs : List ℕ) (m : List (String × Summary))
    (hnd : (m.map Prod.fst ++ st.peerNames ptrs).Nodup) :
    (st.getAndResetAll ptrs m).1.map Prod.fst = m.map Prod.fst ++ st.peerNames ptrs := by
  induction ptrs generalizing st m with
  | nil => simp [getAndResetAll, peerNames]
  | cons ptr ptrs ih =>
    rw [getAndResetAll]
    split
    · next r hr =>
      have hname : st.names[ptr]? = some r.peerName := by simp [names, hr]
      have hnames :
          (Store.mk (st.heap.set ptr r.getAndResetValues.2) st.groups).names = st.names := by
        obtain ⟨hlt, rfl⟩ := List.getElem?_eq_some_iff.mp hr
        exact map_set_of_eq _ hlt (peerName_getAndResetValues _)
      simp only [peerNames, List.filterMap_cons, hname] at hnd ⊢
      have hnot : r.peerName ∉ m.map Prod.fst := fun hm =>
        (List.nodup_append.mp hnd).2.2 hm (List.mem_cons_self _ _)
      have := ih ⟨st.heap.set ptr r.getAndResetValues.2, st.groups⟩
        (m ++ [(r.peerName, r.getAndResetValues.1)]) (by simpa [peerNames, hnames] using hnd)
      rw [mapSet_of_not_mem hnot, this]
      simp [peerNames, hnames]
    · next hr =>
      have hname : st.names[ptr]? = none := by simp [names, hr]
      simp only [peerNames, List.filterMap_cons, hname] at hnd ⊢
      exact ih st m hnd

theorem Registry.of_frame {st st' : Store} (hr : Registry st) (hg : st'.groups = st.groups)
    (hn : st'.names = st.names)
    (hs : st'.heap.map (·.hist.shape) = st.heap.map (·.hist.shape)) : Registry st' := by
  refine ⟨?_, ?_, ?_, fun r hmem => ?_⟩
  · rw [hg, hn]; exact hr.name
  · rw [hg]; exact hr.nodup
  · rw [hg]; exact hr.unique
  · have hmem' : r.hist.shape ∈ st.heap.map (·.hist.shape) :=
      hs ▸ List.mem_map_of_mem (fun r : AggregatingValueRecorder => r.hist.shape) hmem
    obtain ⟨r', hr', heq⟩ := List.mem_map.mp hmem'
    exact heq ▸ hr.shape r' hr'

theorem Registry.getAndResetAll {st : Store} (hr : Registry st) (ptrs : List ℕ)
    (m : List (String × Summary)) : Registry (st.getAndResetAll ptrs m).2 :=
  let h := st.getAndResetAll_groups ptrs m
  hr.of_frame h.1 h.2.1 h.2.2

theorem Store.recorders_eq_nil {st : Store} {s : Service} :
    st.recorders s = [] ↔ st.groups s = [] := List.map_eq_nil_iff

/-- The outer loop writes each visited service that has recorders, under the peer names
of its group. -/
theorem Store.generateServices_keys (st : Store) (ss : List Service)
    (out : List (Service × List (String × Summary))) (hr : Registry st) (hss : ss.Nodup)
    (hout : ∀ s ∈ ss, s ∉ out.map Prod.fst) :
    (st.generateServices ss out).1.map (fun e => (e.1, e.2.map Prod.fst)) =
      out.map (fun e => (e.1, e.2.map Prod.fst)) ++
        (ss.filter fun s => st.groups s ≠ []).map fun s => (s, (st.groups s).map Prod.fst) := by
  induction ss generalizing st out with
  | nil => simp [generateServices]
  | cons s ss ih =>
    have hss' := List.nodup_cons.mp hss
    rw [generateServices]
    split
    · next hempty =>
      rw [ih st out hr hss'.2 fun s' hs' => hout s' (List.mem_cons_of_mem _ hs')]
      simp [recorders_eq_nil.mp hempty]
    · next hne =>
      have hgne : st.groups s ≠ [] := fun h => hne (recorders_eq_nil.mpr h)
      obtain ⟨hg, -, -⟩ := st.getAndResetAll_groups (st.recorders s) []
      have hkeys := st.getAndResetAll_keys (st.recorders s) []
        (by simpa [hr.peerNames_recorders] using hr.nodup s)
      rw [List.map_nil, List.nil_append, hr.peerNames_recorders] at hkeys
      have hmne : (st.getAndResetAll (st.recorders s) []).1 ≠ [] := fun h => by
        simp [h] at hkeys; exact hgne hkeys
      simp only [ne_eq, hmne, not_false_eq_true, if_true,
        mapSet_of_not_mem (hout s (List.mem_cons_self _ _))]
      rw [ih _ _ (hr.getAndResetAll _ _) hss'.2 fun s' hs' => by
        rw [List.map_append, List.mem_append, not_or]
        exact ⟨hout s' (List.mem_cons_of_mem _ hs'),
          by simpa using ne_of_mem_of_not_mem hs' hss'.1⟩]
      simp [hg, hkeys, hgne]

/-- The keys of `generateOutput`'s map besides `meta`: the services whose group has a
recorder, each with the peer names of its group. -/
theorem Store.generateOutput_keys {st : Store} (hr : Registry st) (interval : ℤ) :
    (st.generateOutput interval).1.services.map (fun e => (e.1, e.2.map Prod.fst)) =
      (Service.all.filter fun s => st.groups s ≠ []).map
        fun s => (s, (st.groups s).map Prod.fst) := by
  simpa using st.generateServices_keys Service.all [] hr (by decide) (by simp)

/-! ## `ValueRecorder` and `RecordValue` -/

theorem MeterKeys.request?_eq_some (k : MeterKeys) {name : String} {tags : List (String × String)}
    {s : Service} {p : String} :
    k.request? name tags = some (s, p) ↔ name = k.nameResponses ∧
      tags.lookup k.attribServiceKey = some (k.serviceName s) ∧
      tags.lookup k.attribPeerName = some p := by
  unfold request?
  by_cases hn : name = k.nameResponses
  · simp only [hn, ne_eq, not_true_eq_false, if_false, true_and]
    cases tags.lookup k.attribServiceKey with
    | none => simp
    | some service =>
      cases hsv : k.serviceOf? service with
      | none =>
        simp only [hsv, Option.some.injEq, false_iff, not_and, reduceCtorEq]
        rintro rfl
        simp [(k.serviceOf?_eq_some).mpr rfl] at hsv
      | some s' =>
        obtain rfl := (k.serviceOf?_eq_some).mp hsv
        simp only [hsv, Option.map_eq_some', Prod.mk.injEq, Option.some.injEq]
        constructor
        · rintro ⟨p', hp, rfl, rfl⟩; exact ⟨rfl, hp⟩
        · rintro ⟨hs', hp⟩; exact ⟨p, hp, k.serviceName_injective hs', rfl⟩
  · simp [hn]

theorem mem_of_lookup_eq_some {l : List (String × ℕ)} {p : String} {ptr : ℕ}
    (h : l.lookup p = some ptr) : (p, ptr) ∈ l := by
  obtain ⟨l₁, l₂, rfl, -⟩ := List.lookup_eq_some_iff.mp h
  simp

theorem Store.getOrCreate_mem (st : Store) (s : Service) (p : String) :
    (p, (st.getOrCreate s p).1) ∈ (st.getOrCreate s p).2.groups s := by
  unfold getOrCreate
  split
  · next ptr h => exact mem_of_lookup_eq_some h
  · simp

theorem Store.groups_getOrCreate (st : Store) (s : Service) (p : String) (s' : Service) :
    (st.getOrCreate s p).2.groups s' = st.groups s' ∨
      s' = s ∧ (st.getOrCreate s p).2.groups s' = st.groups s' ++ [(p, st.heap.length)] ∧
        (st.groups s').lookup p = none ∧ (st.getOrCreate s p).1 = st.heap.length := by
  unfold getOrCreate
  split
  · exact .inl rfl
  · next h =>
    by_cases hs : s' = s
    · subst hs; exact .inr ⟨rfl, by simp, h, rfl⟩
    · exact .inl (by simp [hs])

theorem Store.mem_groups_getOrCreate {st : Store} {s s' : Service} {p : String}
    {e : String × ℕ} :
    e ∈ (st.getOrCreate s p).2.groups s' ↔
      e ∈ st.groups s' ∨
        s' = s ∧ (st.groups s).lookup p = none ∧ e = (p, st.heap.length) := by
  unfold getOrCreate
  split
  · next h => simp [h]
  · next h =>
    by_cases hs : s' = s
    · subst hs; simp [h]
    · simp [hs]

theorem Store.keys_getOrCreate (st : Store) (s0 : Service) (p0 : String) (s : Service)
    (p : String) : p ∈ ((st.getOrCreate s0 p0).2.groups s).map Prod.fst ↔
      p ∈ (st.groups s).map Prod.fst ∨ s = s0 ∧ p = p0 := by
  simp only [List.mem_map, Prod.exists, exists_and_right, exists_eq_right]
  constructor
  · rintro ⟨ptr, hm⟩
    rcases mem_groups_getOrCreate.mp hm with hm | ⟨rfl, -, he⟩
    · exact .inl ⟨ptr, hm⟩
    · exact .inr ⟨rfl, (Prod.mk.inj he).1⟩
  · rintro (⟨ptr, hm⟩ | ⟨rfl, rfl⟩)
    · exact ⟨ptr, mem_groups_getOrCreate.mpr (.inl hm)⟩
    · exact ⟨_, st.getOrCreate_mem s p⟩

theorem Store.names_getOrCreate (st : Store) (s : Service) (p : String) :
    (st.getOrCreate s p).2.names = st.names ++
      if (st.groups s).lookup p = none then [p] else [] := by
  unfold getOrCreate
  split
  · next h => simp [h]
  · next h => simp [h, names, newAggregatingValueRecorder]

theorem Registry.lt_of_mem {st : Store} (hr : Registry st) {s : Service} {p : String} {ptr : ℕ}
    (h : (p, ptr) ∈ st.groups s) : ptr < st.heap.length := by
  have := hr.name s p ptr h
  rw [List.getElem?_eq_some_iff] at this
  simpa [Store.names] using this.1

theorem Registry.getOrCreate {st : Store} (hr : Registry st) (s : Service) (p : String) :
    Registry (st.getOrCreate s p).2 := by
  by_cases hnew : (st.groups s).lookup p = none
  · have hnames := st.names_getOrCreate s p
    rw [if_pos hnew] at hnames
    have hlen : st.names.length = st.heap.length := by simp [Store.names]
    refine ⟨fun s' q ptr hm => ?_, fun s' => ?_, fun s1 s2 q q' ptr h1 h2 => ?_,
      fun r hmem => ?_⟩
    · rw [hnames]
      rcases Store.mem_groups_getOrCreate.mp hm with hm | ⟨-, -, he⟩
      · rw [List.getElem?_append_left (hlen ▸ hr.lt_of_mem hm)]
        exact hr.name s' q ptr hm
      · obtain ⟨rfl, rfl⟩ := Prod.mk.inj he
        simp [hlen]
    · rcases st.groups_getOrCreate s p s' with h | ⟨rfl, h, hl, -⟩
      · rw [h]; exact hr.nodup s'
      · rw [h, List.map_append, List.nodup_append]
        refine ⟨hr.nodup s', List.nodup_singleton _, fun q hq hq' => ?_⟩
        obtain ⟨e, he, rfl⟩ := List.mem_map.mp hq
        simp only [List.map_cons, List.map_nil, List.mem_singleton] at hq'
        simpa [hq'] using List.lookup_eq_none_iff.mp hl e he
    · have hlt (s' : Service) (q : String) (h : (q, ptr) ∈ st.groups s') :
          ptr < st.heap.length :=
        hr.lt_of_mem h
      rcases Store.mem_groups_getOrCreate.mp h1 with m1 | ⟨hs1, -, he1⟩ <;>
        rcases Store.mem_groups_getOrCreate.mp h2 with m2 | ⟨hs2, -, he2⟩
      · exact hr.unique s1 s2 q q' ptr m1 m2
      · exact absurd ((Prod.mk.inj he2).2 ▸ hlt _ _ m1) (lt_irrefl _)
      · exact absurd ((Prod.mk.inj he1).2 ▸ hlt _ _ m2) (lt_irrefl _)
      · exact ⟨hs1.trans hs2.symm, (Prod.mk.inj he1).1.trans (Prod.mk.inj he2).1.symm⟩
    · simp only [Store.getOrCreate, hnew, List.mem_append, List.mem_singleton] at hmem
      rcases hmem with hmem | rfl
      · exact hr.shape r hmem
      · rfl
  · have : st.getOrCreate s p =
        (((st.groups s).lookup p).get (Option.ne_none_iff_isSome.mp hnew), st) := by
      unfold Store.getOrCreate; split <;> simp_all
    rw [this]
    exact hr

theorem Registry.valueRecorder {st : Store} (hr : Registry st) (k : MeterKeys) (name : String)
    (tags : List (String × String)) : Registry (valueRecorder k st name tags).2 := by
  unfold GocbMeter.valueRecorder
  split
  · exact hr
  · exact hr.getOrCreate _ _

theorem map_modify_of_eq {α β : Type} (f : α → α) (g : α → β) (hfg : ∀ a, g (f a) = g a)
    (l : List α) (i : ℕ) : (l.modify f i).map g = l.map g := by
  refine List.ext_getElem (by simp) fun n _ _ => ?_
  simp only [List.getElem_map, List.getElem_modify]
  split <;> simp [hfg]

theorem Store.frame_recordValue (st : Store) (h : Handle) (v : UInt64) :
    (st.recordValue h v).groups = st.groups ∧ (st.recordValue h v).names = st.names ∧
      (st.recordValue h v).heap.map (·.hist.shape) = st.heap.map (·.hist.shape) := by
  cases h with
  | noop => exact ⟨rfl, rfl, rfl⟩
  | recorder ptr =>
    refine ⟨rfl, ?_, ?_⟩ <;> simp only [Store.names, Store.recordValue] <;>
      exact map_modify_of_eq _ _ (fun _ => by rfl) _ _

theorem Registry.recordValue {st : Store} (hr : Registry st) (h : Handle) (v : UInt64) :
    Registry (st.recordValue h v) :=
  let f := st.frame_recordValue h v
  hr.of_frame f.1 f.2.1 f.2.2

theorem Store.frame_generateServices (st : Store) (ss : List Service)
    (out : List (Service × List (String × Summary))) :
    (st.generateServices ss out).2.groups = st.groups ∧
      (st.generateServices ss out).2.names = st.names ∧
      (st.generateServices ss out).2.heap.map (·.hist.shape) = st.heap.map (·.hist.shape) := by
  induction ss generalizing st out with
  | nil => exact ⟨rfl, rfl, rfl⟩
  | cons s ss ih =>
    rw [generateServices]
    split
    · exact ih st out
    · obtain ⟨hg, hn, hs⟩ := st.getAndResetAll_groups (st.recorders s) []
      obtain ⟨hg', hn', hs'⟩ := ih (st.getAndResetAll (st.recorders s) []).2 _
      exact ⟨hg'.trans hg, hn'.trans hn, hs'.trans hs⟩

theorem Store.groups_generateOutput (st : Store) (interval : ℤ) :
    (st.generateOutput interval).2.groups = st.groups :=
  (st.frame_generateServices Service.all []).1

theorem Registry.generateOutput {st : Store} (hr : Registry st) (interval : ℤ) :
    Registry (st.generateOutput interval).2 :=
  let f := st.frame_generateServices Service.all []
  hr.of_frame f.1 f.2.1 f.2.2

end GocbMeter
