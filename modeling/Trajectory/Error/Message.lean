import Trajectory.Decimal.Layout
import Trajectory.Error
import Trajectory.Text.Quoted

/-!
The wording of errors.

An error of the library or of a function that a caller supplied has a text. Errors that stem from the handling of
arrays and tables, or from an unknown name, are reported by their kind alone and have none.
-/

namespace Trajectory

open Decimal (text)

/-- What a quantity is called in messages. -/
def Quantity.name : Quantity → String
  | .state => "state"
  | .derivative => "derivative"
  | .resetState => "reset state"

/-- The text of an error, if it has one. -/
def Error.message : Error Float → Option String
  | .stepSize h => some s!"Step size must be finite and non-zero, got {text h}"
  | .stepDirection h => some s!"Negative step size {text h} for a forward integration"
  | .interval a b => some s!"Integration interval [{text a}, {text b}] is too small"
  | .timeBounds a b => some s!"Integration bounds must be finite, got {text a}, {text b}"
  | .dimension what expected got =>
    some s!"Dimension mismatch for {what.name}: expected {expected}, got {got}"
  | .stepBudget n => some s!"max_steps must be at least 1, got {n}"
  | .stepsExhausted n t target =>
    some s!"Maximal number of steps ({n}) exceeded at t={text t} before reaching t={text target}"
  | .tolerance tol => some s!"tol must be positive, got {text tol}"
  | .searchBudget n => some s!"maxiter must be at least 1, got {n}"
  | .notBracketed a fa b fb =>
    some s!"Root is not bracketed: f({text a})={text fa}, f({text b})={text fb}"
  | .notIsolated lower upper n =>
    some s!"Root not isolated within {n} iterations; last bracket [{text lower}, {text upper}]"
  | .outsideWindow t a b => some s!"t={text t} lies outside the step [{text a}, {text b}]"
  | .reversedWindow a b => some s!"Restriction [{text a}, {text b}] reverses the step direction"
  | .checkInterval x => some s!"max_check_interval must be positive, got {text x}"
  | .convergence x => some s!"convergence must be positive, got {text x}"
  | .eventBudget n => some s!"max_iterations must be at least 1, got {n}"
  | .proximity x => some s!"proximity must be non-negative, got {text x}"
  | .settingsTwice => some "Pass either settings or keyword arguments, not both"
  | .crossingDirection d => some s!"Event direction must be -1, 0, or 1, got {d}"
  | .resetMissing => some "RESET_STATE requires a reset callable"
  | .noReset name => some s!"Event handler {Text.quoted name} defines no reset"
  | .gridSpacing h => some s!"Normalizer step must be positive, got {text h}"
  | .notAnEquation kind => some s!"Expected an Equation or a callable (t, y, *args), got {kind}"
  | .notCallable kind => some ("'" ++ kind ++ "' object is not callable")
  | .noDimension kind => some ("'" ++ kind ++ "' object has no attribute 'dimension'")
  | .noWindow => some "'NoneType' object has no attribute 't_end'"
  | .sampleOutsideSpan => some "All values in t_eval must be within t_span"
  | .samplesUnordered => some "t_eval must be sorted in the integration direction"
  | .noIncrement => some ""
  | .divisionByZero => some "float division by zero"
  | .undefinedCount => some "cannot convert float NaN to integer"
  | .infiniteCount => some "cannot convert float infinity to integer"
  | .powerRange => some "(34, 'Numerical result out of range')"
  | .angleRange => some "math domain error"
  | .handlerIndex _ => some "list index out of range"
  | .stalled => some "The computation made no progress"
  | .raised reason | .aborted reason => some reason
  | .unknownAction _ | .noSamples | .singleSample | .ambiguousSample | .undefinedEstimate
  | .infiniteEstimate | .extents | .axes | .noEntry | .notNumber | .emptyNorm | .table
  | .noTable => none

end Trajectory
