import ParserKit.Diagnostic
import ParserKit.Machine

/-!
Runs of a parser over an input: how a run is configured, what it reports, and
the result it leads to, a value or a rendered failure.
-/

namespace ParserKit

structure Runner where
  memoize : Bool := false
  /-- The steps between two pauses of a sliced run. -/
  yieldEvery : Nat := 1024
deriving DecidableEq, Repr

/-- Everything a finished run produced. -/
structure Report (t : Ty) where
  outcome : Outcome t.Elem
  steps : Nat
  state : State

namespace Report

variable {t : Ty}

def position (report : Report t) : Nat :=
  report.state.position

def statistics (report : Report t) : Statistics :=
  report.state.cursor.statistics

/-- The value, or the failure rendered against the input. -/
def result (report : Report t) : Except Fault (Except Diagnostic t.Elem) :=
  match report.outcome with
  | .success value => .ok (.ok value)
  | .failure cause => (Diagnostic.ofFailure cause report.state.cursor).map .error

end Report

namespace Runner

variable {t : Ty}

def withMemoize (runner : Runner) (memoize : Bool) : Runner :=
  { runner with memoize }

/-- Sets the interval between two pauses; zero counts as one. -/
def withYieldEvery (runner : Runner) (steps : Nat) : Runner :=
  { runner with yieldEvery := max steps 1 }

def begin (runner : Runner) (p : Parser t) (input : Array Char) : Machine t :=
  Machine.start p (.startAt input runner.memoize 0)

/-- The report of a machine that has ended. A run that ended without an
outcome is a fault. -/
def finish (steps : Nat) (m : Machine t) : Result (Report t) :=
  match m.control with
  | .halted (some outcome) => .done { outcome, steps, state := m.state }
  | .halted none => .fault .noOutcome
  | .broken cause => .fault cause
  | .run _ _ _ => .timeout
  | .resume _ _ => .timeout

def conclude : Option (Nat × Machine t) → Result (Report t)
  | some (steps, m) => finish steps m
  | none => .timeout

/-- Drives a parser over an input without a pause. -/
def execute (runner : Runner) (fuel : Nat) (p : Parser t) (input : Array Char) :
    Result (Report t) :=
  conclude (drive Machine.step fuel 0 (runner.begin p input))

/-- Drives a parser over an input in slices. -/
def executeSliced (runner : Runner) (fuel : Nat) (p : Parser t) (input : Array Char) :
    Result (Report t) :=
  conclude (driveSliced Machine.step runner.yieldEvery fuel 0 (runner.begin p input))

def run (runner : Runner) (fuel : Nat) (p : Parser t) (input : Array Char) :
    Result (Except Diagnostic t.Elem) := do
  let report ← runner.execute fuel p input
  .ofExcept report.result

def runSliced (runner : Runner) (fuel : Nat) (p : Parser t) (input : Array Char) :
    Result (Except Diagnostic t.Elem) := do
  let report ← runner.executeSliced fuel p input
  .ofExcept report.result

/-- Hands the result to one of two functions. -/
def runWith {α : Type} (runner : Runner) (fuel : Nat) (p : Parser t) (input : Array Char)
    (onSuccess : t.Elem → α) (onFailure : Diagnostic → α) : Result α := do
  match ← runner.run fuel p input with
  | .ok value => return onSuccess value
  | .error diagnostic => return onFailure diagnostic

end Runner

end ParserKit
