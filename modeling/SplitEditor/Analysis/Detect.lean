import SplitEditor.Analysis.Error
import SplitEditor.Wasm.Part

/-! Which binaries are refused before they are looked at any closer. -/

namespace SplitEditor

open Wasm

def lastEncoding (parts : List Part) : Option Encoding :=
  parts.foldl (fun found part =>
    match part with
    | .header _ encoding => some encoding
    | _ => found) none

/-- Accepts bytes whose framing is sound and whose last header is that of a core module. -/
def checkCoreModule (bytes : List UInt8) : Except AnalysisError Unit :=
  match Part.ofBytes? bytes with
  | none => .error .malformedBinary
  | some parts =>
    match lastEncoding parts with
    | some .module => .ok ()
    | some .component => .error .componentBinary
    | none => .error .invalidBinary

end SplitEditor
