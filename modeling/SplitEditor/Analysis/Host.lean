import SplitEditor.Analysis.Artifact
import SplitEditor.Analysis.Decode
import SplitEditor.Analysis.Instance

/-! Requests to an analysis binary. Every request gets an instance of its own, uploads the whole
source, asks one thing, and gives the memory back. -/

namespace SplitEditor

open Wasm

structure Host where
  binary : Binary
  codec : Codec
  maxSourceBytes : Nat
  maxReferences : Nat

namespace Host

/-- Fetches a binary and gets it ready. -/
def load [Engine] (artifact : Artifact) (fuel : Nat) (codec : Codec)
    (maxSourceBytes maxReferences : Nat) :
    Except AnalysisError Host × List LogEvent :=
  match artifact.fetch with
  | (.error e, events) => (.error e, events)
  | (.ok bytes, events) =>
    match Binary.ofBytes bytes fuel with
    | .error e => (.error e, events)
    | .ok binary => (.ok ⟨binary, codec, maxSourceBytes, maxReferences⟩, events ++ [binary.event])

def live {α : Type} (action : Live α) : Decode Instance α :=
  ExceptT.mk fun (i, events) =>
    let (result, i) := action.run i
    (result, i, events)

/-- The whole of a request, once there is an instance. -/
def request {α : Type} (b : Host) (e : Entry) (outcome : α → String) (source : String)
    (ask : UploadedSource → Decode Instance α) : Decode Instance α := do
  let buffer ← live (Instance.upload b.codec source)
  let value ← ask buffer
  live (Instance.release buffer)
  let fuel ← live (return (← get).fuelConsumed)
  Decode.log (.entryPointCompleted e.name (outcome value) fuel)
  return value

/-- Runs a request in a fresh instance. -/
def run {α : Type} (b : Host) (e : Entry) (outcome : α → String) (source : String)
    (ask : UploadedSource → Decode Instance α) : Except AnalysisError α × List LogEvent :=
  let size := Utf8.byteLength source.toList
  let failed (error : AnalysisError) : LogEvent := .entryPointFailed e.name error.message
  if b.maxSourceBytes < size then
    let error := .sourceTooLarge size b.maxSourceBytes
    (.error error, [failed error])
  else
    match b.binary.instantiate with
    | .error error => (.error error, [failed error])
    | .ok i =>
      match (b.request e outcome source ask).run (i, [.instanceCreated e.name size]) with
      | (.ok value, _, events) => (.ok value, events)
      | (.error error, _, events) => (.error error, events ++ [failed error])

def compilationOutcome : Compilation → String
  | .compiled _ => "ok"
  | .failed _ => "error"

def queryOutcome {α : Type} : Option α → String
  | some _ => "found"
  | none => "none"

def compile (b : Host) (source : String) : Except AnalysisError Compilation × List LogEvent :=
  b.run .compile compilationOutcome source fun buffer => do
    Decode.compile Instance.reader b.codec Entry.compile.name (← live (Instance.compile buffer))

def hover (b : Host) (source : String) (line column : UInt32) :
    Except AnalysisError (Option SymbolType) × List LogEvent :=
  b.run .hover queryOutcome source fun buffer => do
    let result ← live (Instance.query .hover buffer line column)
    Decode.hover Instance.reader b.codec Entry.hover.name result

def definition (b : Host) (source : String) (line column : UInt32) :
    Except AnalysisError (Option Span) × List LogEvent :=
  b.run .definition queryOutcome source fun buffer => do
    let result ← live (Instance.query .definition buffer line column)
    Decode.definition Instance.reader b.codec Entry.definition.name result

def references (b : Host) (source : String) (line column : UInt32) :
    Except AnalysisError (Option (List Span)) × List LogEvent :=
  b.run .references queryOutcome source fun buffer => do
    let result ← live (Instance.query .references buffer line column)
    Decode.references Instance.reader b.codec Entry.references.name b.maxReferences result

end Host

end SplitEditor
