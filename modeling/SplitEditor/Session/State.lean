import SplitEditor.Analysis.Host
import SplitEditor.Config.Config
import SplitEditor.Editor.Surface
import SplitEditor.Session.Report

/-! The state of an editing session and the steps that change it. A step is what happens between
two points at which requests may overtake one another: an edit, the issue of a ticket, the reading
of the source, the loading of the analysis binary, a call of it, and the two halves of showing an
outcome. -/

namespace SplitEditor

open Wasm

structure Session where
  settings : Settings
  source : String
  output : String
  /-- The loaded binary. Only a load that succeeds is kept. -/
  host : Option Host
  surface : Surface
  sequencer : Sequencer

abbrev SessionM := StateM (Session × List LogEvent)

namespace Session

def initialSource : String :=
  "state(\"game.exe\") \x7b\n\x7d\n\nstart \x7b\n    false\n\x7d\n\nsplit \x7b\n    true\n\x7d"

def fresh (settings : Settings) : Session where
  settings := settings
  source := initialSource
  output := ""
  host := none
  surface := .empty
  sequencer := .fresh

def log (events : List LogEvent) : SessionM Unit := modify fun (s, old) => (s, old ++ events)

def current : SessionM Session := return (← get).1

def update (f : Session → Session) : SessionM Unit := modify fun (s, events) => (f s, events)

def setSource (text : String) : SessionM Unit := update fun s => { s with source := text }

def issue : SessionM Ticket := do
  let (ticket, sequencer) := (← current).sequencer.issue
  update fun s => { s with sequencer }
  return ticket

def readSource (ticket : Ticket) : SessionM String := do
  let source := (← current).source
  log [.validationStarted ticket.sequence.toNat (Utf8.byteLength source.toList)]
  return source

/-- The binary, which is fetched and made ready unless that has succeeded before. -/
def ensureHost [Engine] (artifact : Artifact) : SessionM (Except AnalysisError Host) := do
  let s ← current
  match s.host with
  | some b => return .ok b
  | none =>
    let (result, events) := Host.load artifact s.settings.fuel s.settings.codec
      s.settings.maxSourceBytes s.settings.maxReferences
    log events
    match result with
    | .ok b =>
      update fun s => { s with host := some b }
      return .ok b
    | .error e => return .error e

/-- Asks the binary something. -/
def ask [Engine] {α : Type} (artifact : Artifact)
    (question : Host → Except AnalysisError α × List LogEvent) :
    SessionM (Except AnalysisError α) := do
  match ← ensureHost artifact with
  | .error e => return .error e
  | .ok b =>
    let (result, events) := question b
    log events
    return result

/-- The first half of showing an outcome: unless a later validation has been issued, the listing
goes to the surface. -/
def beginApply (ticket : Ticket) (source : String)
    (outcome : Except AnalysisError Compilation) : SessionM (Option Publication) := do
  let s ← current
  if s.sequencer.isCurrent ticket then
    let (p, events) := Publication.ofOutcome ticket source outcome
    log events
    match p.listing with
    | some listing => update fun s => { s with surface := s.surface.setOutput listing }
    | none => pure ()
    return some p
  else
    log [.validationSuperseded ticket.sequence.toNat s.sequencer.latest.toNat]
    return none

def publish (ticket : Ticket) (p : Publication) : SessionM Report := do
  update fun s => { s with
    output := p.listing.getD s.output
    surface := (s.surface.setMarkers s.settings.markerOwner p.markers).setStatus p.status }
  log [.validationApplied ticket.sequence.toNat p.status.label p.markers.length]
  return p.report ticket

def apply (ticket : Ticket) (source : String) (outcome : Except AnalysisError Compilation) :
    SessionM Report := do
  match ← beginApply ticket source outcome with
  | some p => publish ticket p
  | none => return .superseded ticket.sequence (← current).sequencer.latest

end Session

end SplitEditor
