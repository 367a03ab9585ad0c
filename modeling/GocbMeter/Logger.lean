import GocbMeter.Run

/-!
# The logger goroutine

`AggregatingMeter.loggerRoutine` and `close`. While the routine waits in its `select`,
either the timer fires, and it calls `generateOutput` on the meter as it is at that
moment, or `close` hands it the stop signal. `close` is an unbuffered send: it completes
only if the routine is waiting to receive.

A tick whose output is `meta` alone ends the routine as a stop would (`Logger.step_phase`),
and a later `close` then finds no receiver (`close_blocks_after_idle_tick`).
-/

namespace GocbMeter

inductive LoggerPhase
  | waiting
  | returned
  deriving DecidableEq, Repr

inductive LoggerEvent
  | tick (store : Store)
  | stop

/-- The routine's place in its loop and the outputs it has logged. -/
structure Logger where
  phase : LoggerPhase
  logged : List Output

def Logger.init : Logger := ⟨.waiting, []⟩

/-- One pass of the loop from the `select`. JSON encoding of the output cannot fail on
its maps of strings and numbers, so the routine always reaches `logInfof`. -/
def Logger.step (interval : ℤ) (l : Logger) : LoggerEvent → Logger
  | .stop => match l.phase with
    | .waiting => { l with phase := .returned }
    | .returned => l
  | .tick st => match l.phase with
    | .waiting =>
      let jsonData := (st.generateOutput interval).1
      if jsonData.size = 1 then { l with phase := .returned }
      else { l with logged := l.logged ++ [jsonData] }
    | .returned => l

def Logger.run (interval : ℤ) (l : Logger) (es : List LoggerEvent) : Logger :=
  es.foldl (Logger.step interval) l

/-- `close`: the send on `stopCh` is received only by a waiting routine. -/
def Logger.closeCompletes (l : Logger) : Prop := l.phase = .waiting

instance (l : Logger) : Decidable l.closeCompletes := inferInstanceAs (Decidable (_ = _))

/-- An event that ends the loop: the stop signal, or a tick with nothing to log. -/
def endsLoop (interval : ℤ) : LoggerEvent → Bool
  | .stop => true
  | .tick st => (st.generateOutput interval).1.size = 1

theorem Logger.step_phase (interval : ℤ) (l : Logger) (hl : l.phase = .waiting)
    (e : LoggerEvent) :
    (l.step interval e).phase = if endsLoop interval e then .returned else .waiting := by
  cases e <;> simp only [step, hl, endsLoop] <;> split <;> simp_all

/-- On a fresh meter the first tick finds nothing to log and ends the routine, though no
stop signal came; a later `close` finds no receiver. -/
theorem close_blocks_after_idle_tick :
    (Logger.init.run (newAggregatingMeter none).1 [.tick (newAggregatingMeter none).2]).phase =
        .returned ∧
      ¬(Logger.init.run (newAggregatingMeter none).1
        [.tick (newAggregatingMeter none).2]).closeCompletes := by
  have h : (Logger.init.run (newAggregatingMeter none).1 [.tick (newAggregatingMeter none).2]).phase
      = .returned := by
    rw [show Logger.init.run _ [_] = Logger.init.step _ _ from rfl, Logger.step_phase _ _ rfl,
      if_pos (by decide)]
  exact ⟨h, by simp [Logger.closeCompletes, h]⟩

end GocbMeter
