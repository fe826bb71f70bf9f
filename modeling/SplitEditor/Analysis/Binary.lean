import SplitEditor.Analysis.Detect
import SplitEditor.Analysis.Entry
import SplitEditor.Log
import SplitEditor.Wasm.CoreModule

/-! A module that can serve as an analysis binary: it imports nothing and exports its memory
and all functions that are asked for. Their types are only looked at when it is instantiated. -/

namespace SplitEditor

open Wasm

structure Binary where
  module : CoreModule
  fuel : Nat

namespace Binary

def checkImports (m : CoreModule) : Except AnalysisError Unit :=
  if m.imports.isEmpty then .ok ()
  else .error (.forbiddenImports (m.imports.map fun (module, name) => s!"{module}::{name}"))

def checkMemory (m : CoreModule) : Except AnalysisError Unit :=
  match m.item? Interface.memoryName with
  | some (.memory _) => .ok ()
  | some _ => .error (.missingExport Interface.memoryName .notMemory)
  | none => .error (.missingExport Interface.memoryName .notExported)

def checkFunction (m : CoreModule) (e : Entry) : Except AnalysisError Unit :=
  match m.item? e.name with
  | some (.func _ _) => .ok ()
  | some _ => .error (.missingExport e.name .notFunction)
  | none => .error (.missingExport e.name .notExported)

def ofModule (m : CoreModule) (fuel : Nat) : Except AnalysisError Binary := do
  checkImports m
  checkMemory m
  Entry.all.forM (checkFunction m)
  return ⟨m, fuel⟩

def ofBytes [Engine] (bytes : List UInt8) (fuel : Nat) : Except AnalysisError Binary := do
  checkCoreModule bytes
  match Engine.compile bytes with
  | some m => ofModule m fuel
  | none => throw (.module .invalid)

def event (b : Binary) : LogEvent := .binaryCompiled b.module.exports.length b.fuel

end Binary

end SplitEditor
