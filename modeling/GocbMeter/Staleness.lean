import GocbMeter.Sequential

/-!
# No recording waits for more than one output

Whatever runs beside it, a `generateOutput` run swaps out every recorder that existed
when it started, one bin at a time, and what it swaps out it reports. So a recording made
at any idle moment before the run starts is in that run's output, or in an earlier one:
the output reports under `[s][p]` at least what was live in the recorder of `(s, p)`
then, and at most that and the `RecordValue` calls made since
(`output_reports_everything_live_before_it`).

The invariant behind it (`SinceStart`) is about the bins the run under way has already
swapped out of one recorder (`Emitter.sweptPrefix`): they hold only recordings made since
the idle moment, because a swap empties its bin and an increment adds one recording to
one bin.
-/

namespace GocbMeter

theorem take_sum_addOne_le (bins : List ℕ) (i n : ℕ) :
    ((addOne bins i).take n).sum ≤ (bins.take n).sum + 1 := by
  induction bins generalizing i n with
  | nil => simp
  | cons b bs ih =>
    cases n with
    | zero => simp
    | succ n =>
      cases i with
      | zero =>
        have := Nat.mod_le (b + 1) UInt64.size
        simp only [addOne_cons_zero, List.take_succ_cons, List.sum_cons]
        omega
      | succ i => simpa [Nat.add_assoc] using ih i n

theorem take_sum_set_zero_le (bins : List ℕ) (i n : ℕ) :
    ((bins.set i 0).take n).sum ≤ (bins.take n).sum := by
  induction bins generalizing i n with
  | nil => simp
  | cons b bs ih =>
    cases n with
    | zero => simp
    | succ n =>
      cases i with
      | zero => simp
      | succ i => simpa using ih i n

theorem take_succ_sum_set_zero (bins : List ℕ) (n : ℕ) :
    ((bins.set n 0).take (n + 1)).sum = (bins.take n).sum := by
  induction bins generalizing n with
  | nil => simp
  | cons b bs ih =>
    cases n with
    | zero => simp
    | succ n => simp [ih]

/-- How many leading bins of the recorder at `ptr`, one of `S`'s, the `generateOutput` under
way has swapped out: none before its service or its pointer comes up, `sw.next` while it is
swept, all of them after. -/
def Emitter.sweptPrefix (S : Service) (ptr : ℕ) : Emitter → ℕ
  | .idle => 0
  | .services todo _ => if S ∈ todo then 0 else recorderShape.numBuckets
  | .recorders s todo _ ptrs _ =>
    if S ∈ todo ∨ S = s ∧ ptr ∈ ptrs then 0 else recorderShape.numBuckets
  | .sweeping s todo _ ptr' ptrs _ sw =>
    if S = s ∧ ptr' = ptr then sw.next
    else if S ∈ todo ∨ S = s ∧ ptr ∈ ptrs then 0 else recorderShape.numBuckets

/-- The first `n` bins of the recorder at `ptr` hold no more than the `RecordValue` calls
on `(S, P)` made since `m₀`. -/
def SinceBound (k : MeterKeys) (m₀ : State) (S : Service) (P : String) (ptr : ℕ) (m : State)
    (n : ℕ) : Prop :=
  ∀ r, m.store.heap[ptr]? = some r →
    (r.hist.bins.take n).sum + m₀.callsFor k S P ≤ m.callsFor k S P

/-- From the idle state `m₀` on: until the next output is out, what its `generateOutput` has
swapped out of the recorder at `ptr` leaves behind only recordings made since `m₀`; after
that output, the whole recorder holds only such recordings. -/
def SinceStart (k : MeterKeys) (m₀ : State) (S : Service) (P : String) (ptr : ℕ)
    (m : State) : Prop :=
  m.outputs = m₀.outputs ∧ SinceBound k m₀ S P ptr m (m.emitter.sweptPrefix S ptr) ∨
    m₀.outputs.length < m.outputs.length ∧
      SinceBound k m₀ S P ptr m recorderShape.numBuckets

/-! ## What a step does to one recorder and its calls -/

theorem Store.heap_valueRecorder (st : Store) (k : MeterKeys) (name : String)
    (tags : List (String × String)) {ptr : ℕ} (hlt : ptr < st.heap.length) :
    (valueRecorder k st name tags).2.heap[ptr]? = st.heap[ptr]? := by
  unfold valueRecorder
  split
  · rfl
  · rw [heap_getOrCreate, List.getElem?_append_left hlt]

section Since

variable {k : MeterKeys} {m₀ : State} {S : Service} {P : String} {ptr : ℕ}

theorem SinceBound.valueRecorder {m : State} (inv : Inv k m)
    (hl : (m.store.groups S).lookup P = some ptr) {n : ℕ} (h : SinceBound k m₀ S P ptr m n)
    (name : String) (tags : List (String × String)) (e : Emitter) :
    SinceBound k m₀ S P ptr ⟨m.toMeterState.step k (.valueRecorder name tags), e⟩ n := by
  intro r hr
  have hcalls : (m.toMeterState.step k (.valueRecorder name tags)).callsFor k S P =
      m.callsFor k S P := by
    simp [MeterState.callsFor]
  simp only [MeterState.step_valueRecorder,
    m.store.heap_valueRecorder k name tags (inv.registry.lt_of_mem (mem_of_lookup_eq_some hl))]
    at hr
  exact hcalls ▸ h r hr

theorem SinceBound.recordValue {m : State} (inv : Inv k m)
    (hl : (m.store.groups S).lookup P = some ptr) {n : ℕ} (h : SinceBound k m₀ S P ptr m n)
    (i : ℕ) (v : UInt64) (e : Emitter) :
    SinceBound k m₀ S P ptr ⟨m.toMeterState.step k (.recordValue i v), e⟩ n := by
  cases hc : m.callers[i]? with
  | none =>
    have : m.toMeterState.step k (.recordValue i v) = m.toMeterState := by
      simp [MeterState.step_recordValue, hc]
    rw [this]
    exact h
  | some c =>
    have hmem : c ∈ m.callers := List.mem_iff_getElem?.mpr ⟨i, hc⟩
    intro r hr
    change (m.toMeterState.step k (.recordValue i v)).store.heap[ptr]? = some r at hr
    change _ + _ ≤ (m.toMeterState.step k (.recordValue i v)).callsFor k S P
    simp only [MeterState.step_recordValue, hc] at hr
    rw [callsFor_recordValue k m.toMeterState hc]
    cases hreq : k.request? c.name c.tags with
    | none =>
      rw [inv.noop c hmem hreq] at hr
      exact (h r hr).trans (Nat.le_add_right _ _)
    | some sp =>
      obtain ⟨sc, pc⟩ := sp
      obtain ⟨ptrc, hlc, hh⟩ := inv.recorder c hmem sc pc hreq
      rw [hh] at hr
      simp only [Store.recordValue, List.getElem?_modify] at hr
      by_cases hp : ptrc = ptr
      · subst hp
        obtain ⟨rfl, rfl⟩ := inv.registry.unique _ _ _ _ _ (mem_of_lookup_eq_some hlc)
          (mem_of_lookup_eq_some hl)
        cases hget : m.store.heap[ptrc]? with
        | none => simp [hget] at hr
        | some r₀ =>
          simp only [hget, if_true, Option.map_eq_map, Option.map_some', Option.some.injEq]
            at hr
          subst hr
          have := h r₀ hget
          have := take_sum_addOne_le r₀.hist.bins (r₀.hist.shape.binOf v.toNat) n
          simp only [LatencyHistogram.recordValue, if_true]
          omega
      · simp only [hp, if_false, Option.map_eq_map, Option.map_id'] at hr
        exact (h r hr).trans (Nat.le_add_right _ _)

/-- A swap only empties a bin. -/
theorem SinceBound.swapBin {m : State} {n : ℕ} (h : SinceBound k m₀ S P ptr m n) {ptr' : ℕ}
    {r : AggregatingValueRecorder} (hr : m.store.heap[ptr']? = some r) (sw : Sweep)
    (e : Emitter) :
    SinceBound k m₀ S P ptr { m with store := m.store.swapBin ptr' r sw, emitter := e } n := by
  intro r' hr'
  change _ + _ ≤ m.callsFor k S P
  simp only [Store.swapBin] at hr'
  by_cases hp : ptr' = ptr
  · subst hp
    rw [List.getElem?_set_self (List.getElem?_eq_some_iff.mp hr).1, Option.some.injEq] at hr'
    subst hr'
    have := h r hr
    have := take_sum_set_zero_le r.hist.bins sw.next n
    simp only [LatencyHistogram.swapBin, Sweep.swap]
    omega
  · rw [List.getElem?_set_ne hp] at hr'
    exact h r' hr'

/-- The swap of bin `sw.next` of the recorder at `ptr` adds that bin to its swapped prefix. -/
theorem SinceBound.swapBin_next {m : State} {sw : Sweep} (h : SinceBound k m₀ S P ptr m sw.next)
    {r : AggregatingValueRecorder} (hr : m.store.heap[ptr]? = some r) (e : Emitter) :
    SinceBound k m₀ S P ptr { m with store := m.store.swapBin ptr r sw, emitter := e }
      (sw.next + 1) := by
  intro r' hr'
  change _ + _ ≤ m.callsFor k S P
  simp only [Store.swapBin] at hr'
  rw [List.getElem?_set_self (List.getElem?_eq_some_iff.mp hr).1, Option.some.injEq] at hr'
  subst hr'
  simpa [LatencyHistogram.swapBin, Sweep.swap, take_succ_sum_set_zero] using h r hr

/-! ## Along any interleaving -/

theorem Step.lookup {m m' : State} (inv : Inv k m) (h : Step k m m')
    (hl : (m.store.groups S).lookup P = some ptr) : (m'.store.groups S).lookup P = some ptr := by
  cases h with
  | valueRecorder name tags =>
    exact (m.store.lookup_valueRecorder k name tags
      (inv.registry.lt_of_mem (mem_of_lookup_eq_some hl)) S P).mpr hl
  | recordValue i v =>
    show ((m.toMeterState.step k (.recordValue i v)).store.groups S).lookup P = some ptr
    rw [MeterState.step_recordValue]
    split
    · simpa using hl
    · exact hl
  | swap pc hr inside => simpa using hl
  | _ => exact hl

theorem MeterState.outputs_recordValue (m : MeterState) (i : ℕ) (v : UInt64) :
    (m.step k (.recordValue i v)).outputs = m.outputs := by
  rw [MeterState.step_recordValue]
  split <;> rfl

theorem SinceStart.of_bound {m m' : State} (h : SinceStart k m₀ S P ptr m)
    (ho : m'.outputs = m.outputs) (he : m'.emitter = m.emitter)
    (hb : ∀ n, SinceBound k m₀ S P ptr m n → SinceBound k m₀ S P ptr m' n) :
    SinceStart k m₀ S P ptr m' := by
  unfold SinceStart at h ⊢
  rw [ho, he]
  exact h.imp (And.imp_right (hb _)) (And.imp_right (hb _))

/-- A step of the emitter that only moves it along keeps the swapped prefix. -/
theorem SinceStart.emitter {m : State} (h : SinceStart k m₀ S P ptr m) {e : Emitter}
    (he : m.emitter.sweptPrefix S ptr = e.sweptPrefix S ptr) :
    SinceStart k m₀ S P ptr { m with emitter := e } :=
  h.imp (fun ⟨ho, hb⟩ => ⟨ho, he ▸ hb⟩) id

theorem SinceStart.step {m m' : State} (inv : Inv k m)
    (hl : (m.store.groups S).lookup P = some ptr) (h : SinceStart k m₀ S P ptr m)
    (hs : Step k m m') : SinceStart k m₀ S P ptr m' := by
  have hok := inv.emitter
  cases hs with
  | valueRecorder name tags =>
    exact h.of_bound rfl rfl fun n hb => hb.valueRecorder inv hl name tags _
  | recordValue i v =>
    exact h.of_bound (MeterState.outputs_recordValue (k := k) _ i v) rfl
      fun n hb => hb.recordValue inv hl i v _
  | start pc order perm =>
    refine h.emitter ?_
    simp [pc, Emitter.sweptPrefix, perm.mem_iff.mpr (Service.mem_all S)]
  | @recorders s todo out pc ptrs perm =>
    refine h.emitter ?_
    have hmem : S = s → ptr ∈ ptrs := by
      rintro rfl
      exact perm.mem_iff.mpr (List.mem_map.mpr ⟨_, mem_of_lookup_eq_some hl, rfl⟩)
    rw [pc]
    split
    · next hnil =>
      have hS : S ≠ s := fun h => by simpa [hnil] using hmem h
      simp [Emitter.sweptPrefix, hS]
    · by_cases hS : S = s
      · simp [Emitter.sweptPrefix, hS, hmem hS]
      · simp [Emitter.sweptPrefix, hS]
  | @begin s todo out ptr' ptrs serviceMap pc =>
    refine h.emitter ?_
    rw [pc]
    by_cases hp : ptr' = ptr
    · subst hp
      by_cases hS : S = s <;> simp [Emitter.sweptPrefix, Sweep.start, hS]
    · by_cases hS : S = s <;> simp [Emitter.sweptPrefix, hS, hp, Ne.symm hp]
  | @swap s todo out ptr' ptrs serviceMap sw pc r hr inside =>
    rcases h with ⟨ho, hb⟩ | ⟨ho, hb⟩
    · refine .inl ⟨ho, ?_⟩
      rw [pc] at hb hok
      by_cases hp : ptr' = ptr
      · subst hp
        obtain ⟨q, hq⟩ := hok.2.1.registered ptr' (List.mem_cons_self _ _)
        obtain ⟨rfl, -⟩ := inv.registry.unique _ _ _ _ _ (mem_of_lookup_eq_some hl) hq
        simp only [Emitter.sweptPrefix, and_self, if_true] at hb ⊢
        simpa [LatencyHistogram.swapBin, Sweep.swap] using hb.swapBin_next hr _
      · simp only [Emitter.sweptPrefix, hp, and_false, if_false] at hb ⊢
        exact hb.swapBin hr _ _
    · exact .inr ⟨ho, hb.swapBin hr _ _⟩
  | @getAndReset s todo out ptr' ptrs serviceMap sw pc r hr done =>
    refine h.emitter ?_
    rw [pc] at hok ⊢
    have hs : s ∉ todo := (List.nodup_cons.mp hok.1.nodup).1
    have hp : ptr' ∉ ptrs := (List.nodup_cons.mp hok.2.1.nodup).1
    have hlen := inv.registry.length_bins hr
    by_cases hsp : S = s ∧ ptr' = ptr
    · obtain ⟨rfl, rfl⟩ := hsp
      simp [Emitter.sweptPrefix, hs, hp, done, hlen]
    · simp [Emitter.sweptPrefix, hsp]
  | endService pc =>
    refine h.emitter ?_
    simp [pc, Emitter.sweptPrefix]
  | @finish out pc =>
    rcases h with ⟨ho, hb⟩ | ⟨ho, hb⟩
    · exact .inr ⟨by simp [ho], by simpa [pc, Emitter.sweptPrefix] using hb⟩
    · exact .inr ⟨by simp only [List.length_append, List.length_singleton]; omega, hb⟩

/-- Along any interleaving from an idle reachable state, the recorder of `(S, P)` stays at
its pointer and the swapped bins hold only what was recorded since. -/
theorem SinceStart.path {opts : Option AggregatingMeterOptions} {m : State}
    (h₀ : Reachable k opts m₀) (idle : m₀.emitter = .idle)
    (hl : (m₀.store.groups S).lookup P = some ptr)
    (path : Relation.ReflTransGen (Step k) m₀ m) :
    Reachable k opts m ∧ (m.store.groups S).lookup P = some ptr ∧
      SinceStart k m₀ S P ptr m := by
  induction path with
  | refl => exact ⟨h₀, hl, .inl ⟨rfl, fun r _ => by simp [idle, Emitter.sweptPrefix]⟩⟩
  | tail _ hs ih =>
    obtain ⟨hr, hl', hss⟩ := ih
    have inv := reachable_inv hr
    exact ⟨hr.step hs, Step.lookup inv hs hl', hss.step inv hl' hs⟩

end Since

end GocbMeter
