/-! What can go wrong between the editor and an analysis binary. A fault in the user's source
is not among these: it is an answer of the binary. -/

namespace SplitEditor

inductive FileFault where
  | notFound
  | isDirectory
  | denied
  | notUtf8
  deriving Repr, DecidableEq

def FileFault.message : FileFault → String
  | notFound => "No such file or directory (os error 2)"
  | isDirectory => "Is a directory (os error 21)"
  | denied => "Permission denied (os error 13)"
  | notUtf8 => "stream did not contain valid UTF-8"

inductive ExportFault where
  | notExported
  | notFunction
  | notMemory
  | wrongType
  deriving Repr, DecidableEq

def ExportFault.message : ExportFault → String
  | notExported => "not exported"
  | notFunction => "export is not a function"
  | notMemory => "export is not a memory"
  | wrongType => "function has another type"

inductive ResultFault where
  | nullResult
  | okWithoutModule
  | errorWithoutValue
  | hoverWithoutSpan
  | indexOutOfRange (index : UInt32)
  deriving Repr, DecidableEq

def ResultFault.message : ResultFault → String
  | nullResult => "null result handle"
  | okWithoutModule => "ok result without a module buffer"
  | errorWithoutValue => "error result without error value"
  | hoverWithoutSpan => "hover without span"
  | indexOutOfRange index => s!"index {index} exceeds the wasm32 range"

inductive ModuleFault where
  | invalid
  | segmentOutOfBounds
  | startTrapped
  deriving Repr, DecidableEq

def ModuleFault.message : ModuleFault → String
  | invalid => "the module is not valid"
  | segmentOutOfBounds => "a data segment does not fit in memory"
  | startTrapped => "the start function trapped"

inductive AnalysisError where
  | io (fault : FileFault)
  | artifactTooLarge (size max : Nat)
  | invalidBinary
  | malformedBinary
  | componentBinary
  | module (fault : ModuleFault)
  | forbiddenImports (names : List String)
  | missingExport (name : String) (fault : ExportFault)
  | execution
  | allocationFailed (bytes : Nat)
  | outOfBounds (ptr len : UInt32) (memorySize : Nat)
  | sourceTooLarge (size max : Nat)
  | invalidPosition (line column : UInt32)
  | malformedResult (entryPoint : String) (fault : ResultFault)
  deriving Repr, DecidableEq

namespace AnalysisError

def message : AnalysisError → String
  | io fault => s!"I/O error: {fault.message}"
  | artifactTooLarge size max => s!"Analysis binary too large: {size} bytes (max: {max} bytes)"
  | invalidBinary => "Invalid WASM binary: missing WASM version header"
  | malformedBinary => "WASM parser error: malformed binary"
  | componentBinary =>
    "Unsupported encoding: Unsupported analysis binary: Component Model binaries " ++
      "are not supported, the analysis binary must be a core WASM module."
  | module fault => s!"WASM module error: {fault.message}"
  | forbiddenImports names =>
    "Analysis binary must not import host items, found: " ++ ", ".intercalate names
  | missingExport name fault => s!"Analysis binary export '{name}' unavailable: {fault.message}"
  | execution => "WASM execution error: the call trapped"
  | allocationFailed bytes => s!"Analysis binary failed to allocate {bytes} bytes"
  | outOfBounds ptr len memorySize =>
    s!"Memory access out of bounds: ptr={ptr} len={len} memory_size={memorySize}"
  | sourceTooLarge size max => s!"Source too large: {size} bytes (max: {max} bytes)"
  | invalidPosition line column => s!"Invalid position: line {line}, column {column}"
  | malformedResult entryPoint fault => s!"Malformed result from '{entryPoint}': {fault.message}"

def chain : AnalysisError → List String
  | io fault => [message (io fault), fault.message]
  | e => [e.message]

end AnalysisError

end SplitEditor
