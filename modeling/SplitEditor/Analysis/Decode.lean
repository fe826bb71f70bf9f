import SplitEditor.Analysis.SpanCursor
import SplitEditor.Log
import SplitEditor.Text.Codec

/-! Result handles turned into values. A result is tagged ok or error. For a compilation both
tags carry a value that has to be there; for a query a missing value is no answer, and so is an
error, which is logged. -/

namespace SplitEditor

/-- A reading in progress: it may fail, and what it asked and logged stays. -/
abbrev Decode (σ : Type) := ExceptT AnalysisError (StateM (σ × List LogEvent))

namespace Decode

variable {σ : Type}

def ask (reader : ResultReader σ) (a : Accessor) : Decode σ a.Answer :=
  ExceptT.mk fun (s, events) =>
    let (answer, s) := reader.read a s
    (answer, s, events)

def log (event : LogEvent) : Decode σ Unit :=
  ExceptT.mk fun (s, events) => (.ok (), s, events ++ [event])

def require (entryPoint : String) (fault : ResultFault) (handle : Handle) : Decode σ Handle :=
  match handle.present with
  | some handle => pure handle
  | none => throw (.malformedResult entryPoint fault)

def span? (reader : ResultReader σ) (handle : Handle) : Decode σ (Option Span) :=
  match handle.present with
  | some handle => do return some (← ask reader (.span handle))
  | none => return none

def diagnostic (reader : ResultReader σ) (codec : Codec) (error : Handle) :
    Decode σ Diagnostic := do
  let message ← ask reader (.errorMessage error)
  let span ← span? reader (← ask reader (.errorSpan error))
  return ⟨codec.decode message, span⟩

def compile (reader : ResultReader σ) (codec : Codec) (entryPoint : String)
    (result : Handle) : Decode σ Compilation := do
  let result ← require entryPoint .nullResult result
  if ← ask reader (.resultIsOk result) then
    let buf ← require entryPoint .okWithoutModule (← ask reader (.resultOk result))
    return .compiled (← ask reader (.bufBytes buf))
  else
    let error ← require entryPoint .errorWithoutValue (← ask reader (.resultError result))
    return .failed (← diagnostic reader codec error)

/-- The value of a query's result, if there is one. -/
def value? (reader : ResultReader σ) (codec : Codec) (entryPoint : String)
    (result : Handle) : Decode σ (Option Handle) := do
  let result ← require entryPoint .nullResult result
  if ← ask reader (.resultIsOk result) then
    let value ← ask reader (.resultOk result)
    return Handle.present value
  else
    let error ← ask reader (.resultError result)
    match Handle.present error with
    | some error =>
      let info ← diagnostic reader codec error
      log (.queryErrorSuppressed entryPoint info.message)
    | none => pure ()
    return none

def hover (reader : ResultReader σ) (codec : Codec) (entryPoint : String)
    (result : Handle) : Decode σ (Option SymbolType) := do
  match ← value? reader codec entryPoint result with
  | none => return none
  | some hover =>
    let buf ← ask reader (.hoverType hover)
    let type ← ask reader (.bufBytes buf)
    let span ← require entryPoint .hoverWithoutSpan (← ask reader (.hoverSpan hover))
    return some ⟨codec.decode type, ← ask reader (.span span)⟩

def definition (reader : ResultReader σ) (codec : Codec) (entryPoint : String)
    (result : Handle) : Decode σ (Option Span) := do
  match ← value? reader codec entryPoint result with
  | none => return none
  | some span => return some (← ask reader (.span span))

def spans (reader : ResultReader σ) (cursor : SpanCursor) :
    Decode σ (List Span × SpanCursor) :=
  ExceptT.mk fun (s, events) =>
    let (spans, cursor, s) := cursor.collect reader s []
    (spans.map (·, cursor), s, events)

def references (reader : ResultReader σ) (codec : Codec) (entryPoint : String) (cap : Nat)
    (result : Handle) : Decode σ (Option (List Span)) := do
  match ← value? reader codec entryPoint result with
  | none => return none
  | some list =>
    let (spans, cursor) ← spans reader { list, cap }
    if cursor.truncated then log (.referenceCapReached cap)
    return some spans

end Decode

end SplitEditor
