import SplitEditor.Session.Finding
import SplitEditor.Session.State

/-! Requests to a session. Starting one takes what it needs from the session, for a validation
a ticket; finishing it asks the binary. Requests that overlap are all started before any of them
is finished, as far as they have to wait for the binary at all. -/

namespace SplitEditor

open Wasm

inductive Request where
  | edit (text : String)
  | validate
  | query (query : Query) (line column : UInt32)
  deriving Repr, DecidableEq

inductive Response where
  | report (report : Report)
  | finding (result : Except AnalysisError (Option Finding))

inductive Task where
  | validation (ticket : Ticket) (source : String)
  | query (query : Query) (line column : UInt32) (source : String)
  deriving Repr, DecidableEq

def Task.source : Task → String
  | validation _ source => source
  | query _ _ _ source => source

namespace Session

def hoverText (type : String) : String := s!"\x60\x60\x60asl\n{type}\n\x60\x60\x60"

def ofRanges (uri : String) (query : Query) (ranges : List Range) : Finding :=
  match query with
  | .rename name => .rename ⟨uri, ranges.map (⟨·, name⟩)⟩
  | .highlights => .highlights (ranges.map (⟨·, .text⟩))
  | _ => .references (ranges.map (⟨uri, ·⟩))

/-- Asks a loaded binary, with columns converted on the way in and on the way out. -/
def find (b : Host) (uri : String) (query : Query) (line column : UInt32) (source : String) :
    Except AnalysisError (Option Finding) × List LogEvent :=
  let lines := SourceLines.ofSource source
  let byteColumn := lines.byteColumn line column
  match query with
  | .hover =>
    let (result, events) := b.hover source line byteColumn
    (result.map (·.map fun h => .hover ⟨lines.toRange h.span, [hoverText h.type]⟩), events)
  | .definition =>
    let (result, events) := b.definition source line byteColumn
    (result.map (·.map fun span => .definition ⟨uri, lines.toRange span⟩), events)
  | query =>
    let (result, events) := b.references source line byteColumn
    (result.map (·.map fun spans => ofRanges uri query (spans.map lines.toRange)), events)

def startValidation : SessionM Task := do
  let ticket ← issue
  return .validation ticket (← readSource ticket)

def start : Request → SessionM Task
  | .edit text => do
    setSource text
    startValidation
  | .validate => startValidation
  | .query query line column => do return .query query line column (← current).source

def finish [Engine] (artifact : Artifact) : Task → SessionM Response
  | .validation ticket source => do
    let outcome ← ask artifact (·.compile source)
    return .report (← apply ticket source outcome)
  | .query query line column source => do
    let uri := (← current).settings.documentUri
    return .finding (← ask artifact fun b => find b uri query line column source)

def perform [Engine] (artifact : Artifact) (request : Request) : SessionM Response := do
  finish artifact (← start request)

def failsAtOnce (s : Session) (artifact : Artifact) (task : Task) : Bool :=
  match s.host with
  | some b => b.maxSourceBytes < Utf8.byteLength task.source.toList
  | none => artifact.inMemory && !artifact.checkSize.isOk

def startAll [Engine] (artifact : Artifact) (requests : List Request) :
    SessionM (List (Task ⊕ Response)) :=
  requests.mapM fun request => do
    let task ← start request
    if failsAtOnce (← current) artifact task then return .inr (← finish artifact task)
    else return .inl task

def performAll [Engine] (artifact : Artifact) (requests : List Request) :
    SessionM (List Response) := do
  (← startAll artifact requests).mapM fun
    | .inl task => finish artifact task
    | .inr response => return response

end Session

end SplitEditor
