import SplitEditor.Analysis.Value
import SplitEditor.Editor.SourceLines
import SplitEditor.Editor.Value
import SplitEditor.Log
import SplitEditor.Session.Sequencer
import SplitEditor.Wasm.Listing

/-! What comes of a validation: what is to be shown for its outcome, and the report to whoever
asked for it. -/

namespace SplitEditor

inductive Report where
  | applied (sequence : UInt64) (status : BuildStatus) (markers : List Marker)
      (module : Option (List UInt8))
  /-- A later validation was issued before this one could be shown. -/
  | superseded (sequence latest : UInt64)
  deriving Repr, DecidableEq

/-- What is shown for an outcome. Without a listing the output stays as it is. -/
structure Publication where
  listing : Option String
  markers : List Marker
  status : BuildStatus
  module : Option (List UInt8)
  deriving Repr, DecidableEq

namespace Publication

def markersOf (source : String) (d : Diagnostic) : List Marker :=
  match d.span with
  | some span => [⟨(SourceLines.ofSource source).toRange span, .error, d.message⟩]
  | none => []

/-- What to show for the outcome of compiling a source, and what to log about it. -/
def ofOutcome (ticket : Ticket) (source : String) (outcome : Except AnalysisError Compilation) :
    Publication × List LogEvent :=
  match outcome with
  | .ok (.compiled module) =>
    match Wasm.Listing.render module with
    | .ok listing => (⟨some listing, [], .ready, some module⟩, [])
    | .error e => (⟨none, [], .ready, some module⟩, [.outlineFailed e.message])
  | .ok (.failed d) => (⟨none, markersOf source d, .failed d.message, none⟩, [])
  | .error e =>
    (⟨none, [], .internalError, none⟩, [.internalFailure ticket.sequence.toNat e.message])

def report (p : Publication) (ticket : Ticket) : Report :=
  .applied ticket.sequence p.status p.markers p.module

end Publication

end SplitEditor
