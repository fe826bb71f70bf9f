import SplitEditor.Analysis.Error
import SplitEditor.Log

/-! Where the bytes of an analysis binary come from. They are fetched before anything is known
about them but their number. -/

namespace SplitEditor

structure Artifact where
  location : String
  content : Except FileFault (List UInt8)
  maxBytes : Nat
  /-- The content is at hand, and fetching it waits for nothing. -/
  inMemory : Bool

namespace Artifact

def checkSize (a : Artifact) : Except AnalysisError (List UInt8) :=
  match a.content with
  | .error fault => .error (.io fault)
  | .ok bytes =>
    if a.maxBytes < bytes.length then .error (.artifactTooLarge bytes.length a.maxBytes)
    else .ok bytes

def fetch (a : Artifact) : Except AnalysisError (List UInt8) × List LogEvent :=
  match a.checkSize with
  | .ok bytes => (.ok bytes, [.artifactLoaded a.location bytes.length])
  | .error e => (.error e, [.artifactLoadFailed a.location e.message])

end Artifact

end SplitEditor
