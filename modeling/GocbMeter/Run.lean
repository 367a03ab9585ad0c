import GocbMeter.Meter

/-!
# Runs of the meter, one operation at a time

A run is any sequence of `ValueRecorder` calls, `RecordValue` calls on the recorders
they returned, and `generateOutput` calls, each taking effect at once. `Caller` keeps
what each `ValueRecorder` call asked for and got back, and how often its recorder was
used. Which services and peers an output names depends only on the `ValueRecorder`
calls made so far (`output_keys_of_run`), not on what was recorded since the last
output.
-/

namespace GocbMeter

/-- A `ValueRecorder` call: its metric name and tags, the recorder it returned, and the
number of `RecordValue` calls made on that recorder since. -/
structure Caller where
  name : String
  tags : List (String × String)
  handle : Handle
  calls : ℕ

structure MeterState where
  interval : ℤ
  store : Store
  callers : List Caller
  outputs : List Output

inductive MeterOp
  | valueRecorder (name : String) (tags : List (String × String))
  | recordValue (caller : ℕ) (value : UInt64)
  | generateOutput

/-- What a `generateOutput` call returns in this state. -/
def MeterState.output (m : MeterState) : Output := (m.store.generateOutput m.interval).1

def MeterState.step (k : MeterKeys) (m : MeterState) : MeterOp → MeterState
  | .valueRecorder name tags =>
    let (h, st) := valueRecorder k m.store name tags
    { m with store := st, callers := m.callers ++ [⟨name, tags, h, 0⟩] }
  | .recordValue i v =>
    match m.callers[i]? with
    | some c =>
      { m with store := m.store.recordValue c.handle v,
               callers := m.callers.modify (fun c => { c with calls := c.calls + 1 }) i }
    | none => m
  | .generateOutput =>
    { m with store := (m.store.generateOutput m.interval).2, outputs := m.outputs ++ [m.output] }

def MeterState.init (opts : Option AggregatingMeterOptions) : MeterState :=
  ⟨(newAggregatingMeter opts).1, (newAggregatingMeter opts).2, [], []⟩

/-- The state after a run from `NewAggregatingMeter(opts)`. -/
def MeterState.after (k : MeterKeys) (opts : Option AggregatingMeterOptions) (ops : List MeterOp) :
    MeterState :=
  ops.foldl (MeterState.step k) (.init opts)

/-- What each `ValueRecorder` call so far resolved to. -/
def MeterState.requests (k : MeterKeys) (m : MeterState) : List (Option (Service × String)) :=
  m.callers.map fun c => k.request? c.name c.tags

/-- The store's registry, and its groups as the record of the `ValueRecorder` calls. -/
structure History (k : MeterKeys) (m : MeterState) : Prop where
  registry : Registry m.store
  groups : ∀ s p, p ∈ (m.store.groups s).map Prod.fst ↔ some (s, p) ∈ m.requests k

theorem History.step {k : MeterKeys} {m : MeterState} (h : History k m) (op : MeterOp) :
    History k (m.step k op) := by
  cases op with
  | valueRecorder name tags =>
    refine ⟨h.registry.valueRecorder k name tags, fun s p => ?_⟩
    simp only [MeterState.step, MeterState.requests, List.map_append, List.map_singleton,
      List.mem_append, List.mem_singleton, valueRecorder]
    split
    · next hreq => simpa [hreq, MeterState.requests] using h.groups s p
    · next s0 p0 hreq =>
      rw [Store.keys_getOrCreate, h.groups, hreq]
      simp [MeterState.requests, eq_comm, and_comm]
  | recordValue i v =>
    simp only [MeterState.step]
    split
    · refine ⟨h.registry.recordValue _ v, fun s p => ?_⟩
      rw [(m.store.frame_recordValue _ v).1, h.groups]
      simp only [MeterState.requests]
      rw [← map_modify_of_eq (fun c => { c with calls := c.calls + 1 })
        (fun c : Caller => k.request? c.name c.tags) (fun _ => rfl) m.callers i]
    · exact h
  | generateOutput =>
    exact ⟨h.registry.generateOutput m.interval, fun s p => by
      simpa [MeterState.step, Store.groups_generateOutput, MeterState.requests] using
        h.groups s p⟩

theorem History.run {k : MeterKeys} {m : MeterState} (h : History k m) (ops : List MeterOp) :
    History k (ops.foldl (MeterState.step k) m) := by
  induction ops generalizing m with
  | nil => exact h
  | cons op ops ih => exact ih (h.step op)

/-- Only `generateOutput` adds to the outputs. -/
theorem MeterState.outputs_run {k : MeterKeys} :
    ∀ (ops : List MeterOp) (m : MeterState), (∀ op ∈ ops, op ≠ .generateOutput) →
      (ops.foldl (MeterState.step k) m).outputs = m.outputs
  | [], _, _ => rfl
  | op :: ops, m, h => by
    rw [List.foldl_cons, MeterState.outputs_run ops _ fun o ho => h o (List.mem_cons_of_mem _ ho)]
    have hop := h op (List.mem_cons_self _ _)
    cases op with
    | valueRecorder => rfl
    | recordValue i v =>
      simp only [MeterState.step]
      split <;> rfl
    | generateOutput => exact absurd rfl hop

theorem history_after (k : MeterKeys) (opts : Option AggregatingMeterOptions)
    (ops : List MeterOp) : History k (MeterState.after k opts ops) :=
  History.run ⟨Registry.empty, by simp [MeterState.init, newAggregatingMeter, Store.empty,
    MeterState.requests]⟩ ops

theorem History.groups_ne_nil {k : MeterKeys} {m : MeterState} (h : History k m) (s : Service) :
    m.store.groups s ≠ [] ↔ ∃ p, some (s, p) ∈ m.requests k := by
  simp only [← h.groups, List.mem_map, Prod.exists, exists_and_right, exists_eq_right, ne_eq,
    ← List.isEmpty_iff, List.isEmpty_eq_false_iff_exists_mem, Bool.not_eq_true]

theorem History.output_services {k : MeterKeys} {m : MeterState} (h : History k m) :
    m.output.services.map Prod.fst = Service.all.filter fun s => m.store.groups s ≠ [] := by
  simpa [List.map_map, Function.comp_def] using
    congrArg (List.map Prod.fst) (m.store.generateOutput_keys h.registry m.interval)

/-- An output is `meta` alone exactly when no `ValueRecorder` call so far resolved to a
recorder. -/
theorem History.output_size_eq_one_iff {k : MeterKeys} {m : MeterState} (h : History k m) :
    m.output.size = 1 ↔ ∀ r ∈ m.requests k, r = none := by
  have hnil : m.output.services = [] ↔ ∀ s, m.store.groups s = [] := by
    rw [← List.map_eq_nil_iff (f := Prod.fst), h.output_services, List.filter_eq_nil_iff]
    simp [Service.mem_all]
  rw [Output.size, show 1 + m.output.services.length = 1 ↔ m.output.services = [] by simp, hnil]
  constructor
  · intro hall r hr
    cases r with
    | none => rfl
    | some sp => exact absurd (hall sp.1) ((h.groups_ne_nil sp.1).mpr ⟨sp.2, hr⟩)
  · intro hnone s
    by_contra hne
    obtain ⟨p, hp⟩ := (h.groups_ne_nil s).mp hne
    exact absurd (hnone _ hp) (by simp)

/-- One choice of the meter's constants, to run the model on. -/
def exampleKeys : MeterKeys where
  nameResponses := "responses"
  attribServiceKey := "service"
  attribPeerName := "peer"
  serviceName := fun
    | .kv => "kv" | .views => "views" | .query => "query" | .search => "search"
    | .analytics => "analytics" | .management => "management"
  serviceName_injective := by intro a b h; cases a <;> cases b <;> simp_all
  serviceName_ne_meta := by intro s; cases s <;> simp

end GocbMeter
