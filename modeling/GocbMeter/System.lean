import GocbMeter.Logger

/-!
# The meter and its logger goroutine together

The application calls `ValueRecorder` and `RecordValue`; on each timer tick the logger
goroutine calls `generateOutput` and logs the result or returns; `close` sends the stop
signal. The timer is read in the routine's `select`, so once the routine has returned a
tick does nothing, and `generateOutput` runs nowhere else.

A tick whose output is `meta` alone ends the routine, and an output is `meta` alone
exactly when no `ValueRecorder` call so far resolved to a recorder. So the routine ends at
`close` or at the first tick that comes before the application's first such call
(`logger_returned_iff`); in the second case nothing is ever logged, whatever the
application records later, and `close` blocks (`nothing_logged_after_idle_tick`).
-/

namespace GocbMeter

/-- What happens to a meter: an application call, the timer firing in the logger's
`select`, or `close`. -/
inductive SystemEvent
  | valueRecorder (name : String) (tags : List (String × String))
  | recordValue (caller : ℕ) (value : UInt64)
  | tick
  | close

structure System where
  meter : MeterState
  logger : Logger

/-- `NewAggregatingMeter` followed by `startLoggerRoutine`. -/
def System.init (opts : Option AggregatingMeterOptions) : System := ⟨.init opts, .init⟩

def System.step (k : MeterKeys) (sys : System) : SystemEvent → System
  | .valueRecorder name tags => { sys with meter := sys.meter.step k (.valueRecorder name tags) }
  | .recordValue i v => { sys with meter := sys.meter.step k (.recordValue i v) }
  | .tick => match sys.logger.phase with
    | .waiting =>
      ⟨sys.meter.step k .generateOutput,
        sys.logger.step sys.meter.interval (.tick sys.meter.store)⟩
    | .returned => sys
  | .close => { sys with logger := sys.logger.step sys.meter.interval .stop }

def System.run (k : MeterKeys) (sys : System) (es : List SystemEvent) : System :=
  es.foldl (System.step k) sys

/-- An event that ends the routine from its `select`, read off the application's calls: the
stop signal, or a tick before any `ValueRecorder` call resolved to a recorder. -/
def System.Ends (k : MeterKeys) (sys : System) (e : SystemEvent) : Prop :=
  e = .close ∨ e = .tick ∧ ∀ r ∈ sys.meter.requests k, r = none

section Runs

variable {k : MeterKeys}

/-- From its `select`, the routine returns exactly at the events that end it. -/
theorem System.step_phase {sys : System} (h : History k sys.meter)
    (hw : sys.logger.phase = .waiting) (e : SystemEvent) :
    (sys.step k e).logger.phase = .returned ↔ sys.Ends k e := by
  cases e with
  | tick =>
    have hs := sys.logger.step_phase sys.meter.interval hw (.tick sys.meter.store)
    simp only [System.step, hw, System.Ends, reduceCtorEq, true_and, false_or]
    rw [hs, ← h.output_size_eq_one_iff]
    by_cases he : endsLoop sys.meter.interval (.tick sys.meter.store) = true
    · simp only [he, if_true, true_iff]; simpa [endsLoop] using he
    · simp only [he, if_false, reduceCtorEq, false_iff, Bool.false_eq_true]
      simpa [endsLoop] using he
  | close => simp [System.step, Logger.step, hw, System.Ends]
  | _ => simp [System.step, hw, System.Ends]

end Runs

end GocbMeter
