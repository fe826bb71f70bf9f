/-! What is logged. An event holds the facts; its level and its text are functions of it.
Errors appear as the text they are shown with. -/

namespace SplitEditor

inductive LogLevel where
  | error
  | warn
  | info
  | debug
  deriving Repr, DecidableEq

def LogLevel.name : LogLevel → String
  | error => "ERROR"
  | warn => "WARN"
  | info => "INFO"
  | debug => "DEBUG"

inductive LogEvent where
  | artifactLoaded (source : String) (bytes : Nat)
  | artifactLoadFailed (source error : String)
  | binaryCompiled (exports fuel : Nat)
  | instanceCreated (entryPoint : String) (sourceBytes : Nat)
  | entryPointCompleted (entryPoint outcome : String) (fuelConsumed : Nat)
  | entryPointFailed (entryPoint error : String)
  | queryErrorSuppressed (entryPoint message : String)
  | referenceCapReached (cap : Nat)
  | fuelClamped (requested minimum maximum : Nat)
  | validationStarted (sequence sourceBytes : Nat)
  | validationSuperseded (sequence latest : Nat)
  | validationApplied (sequence : Nat) (status : String) (markers : Nat)
  | internalFailure (sequence : Nat) (error : String)
  | outlineFailed (error : String)
  deriving Repr, DecidableEq

namespace LogEvent

def level : LogEvent → LogLevel
  | artifactLoaded .. | binaryCompiled .. | validationApplied .. => .info
  | artifactLoadFailed .. | entryPointFailed .. | internalFailure .. => .error
  | referenceCapReached .. | fuelClamped .. | outlineFailed .. => .warn
  | instanceCreated .. | entryPointCompleted .. | queryErrorSuppressed .. => .debug
  | validationStarted .. | validationSuperseded .. => .debug

def text : LogEvent → String
  | artifactLoaded source bytes => s!"Loaded analysis binary: {source} ({bytes} bytes)"
  | artifactLoadFailed source error => s!"Failed to load analysis binary '{source}': {error}"
  | binaryCompiled exports fuel =>
    s!"Compiled analysis binary: {exports} exports, fuel_level={fuel}"
  | instanceCreated entryPoint bytes =>
    s!"Instantiated analysis binary for {entryPoint}: source={bytes} bytes"
  | entryPointCompleted entryPoint outcome fuel =>
    s!"{entryPoint} completed: outcome={outcome}, fuel_consumed={fuel}"
  | entryPointFailed entryPoint error => s!"{entryPoint} failed: {error}"
  | queryErrorSuppressed entryPoint message =>
    s!"{entryPoint} reported an error, returning no result: {message}"
  | referenceCapReached cap => s!"Reference list not terminated after {cap} entries, truncating"
  | fuelClamped requested minimum maximum =>
    s!"Requested fuel level {requested} outside [{minimum}, {maximum}], clamping"
  | validationStarted sequence bytes => s!"Validation #{sequence} started: source={bytes} bytes"
  | validationSuperseded sequence latest =>
    s!"Dropping validation #{sequence}: superseded by #{latest}"
  | validationApplied sequence status markers =>
    s!"Validation #{sequence} applied: status='{status}', markers={markers}"
  | internalFailure sequence error =>
    s!"Validation #{sequence} hit an internal failure: {error}"
  | outlineFailed error => s!"Failed to render compiled module outline: {error}"

def line (event : LogEvent) : String := s!"{event.level.name} {event.text}"

end LogEvent

end SplitEditor
