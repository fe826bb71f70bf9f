import SplitEditor.Wasm.Check
import SplitEditor.Wasm.Machine

/-! From the bytes of a module to what its host sees of it. -/

namespace SplitEditor.Wasm

namespace Module

/-- The value of a constant expression of a module without imports. -/
def constant? (ops : List Op) : Option Value := do
  let step (stack : List Value) (op : Op) : Option (List Value) := do
    match op with
    | .const v => return v :: stack
    | .numeric op => op.eval stack
    | .refNull _ => return .ref none :: stack
    | .refFunc function => return .ref (some function) :: stack
    | _ => none
  match ← ops.foldlM step [] with
  | [v] => return v
  | _ => none

def address? (ops : List Op) : Option Nat := do
  match ← constant? ops with
  | .i32 n => return n.toNat
  | _ => none

def reference (ops : List Op) : Option Nat :=
  match constant? ops with
  | some (.ref r) => r
  | _ => none

/-- The segments copied at the start, elements before data. A segment without a known place is
given one outside of everything. -/
def segments (m : Module) : List Segment :=
  let elements := m.elements.filterMap fun segment =>
    match segment.mode with
    | .active table offset =>
      some (.references table ((address? offset).getD 0x100000000) (segment.items.map reference))
    | _ => none
  let data := m.data.filterMap fun segment =>
    match segment.mode with
    | .active _ offset => some (.bytes ((address? offset).getD 0x100000000) segment.bytes)
    | _ => none
  elements ++ data

def memory (m : Module) : Memory :=
  match m.memories with
  | type :: _ => .ofPages type.limits.least type.limits.most
  | [] => .ofPages 0 (some 0)

/-- Active and declared segments are used up by the time anything runs. -/
def initialStore (m : Module) : Store where
  memory := m.memory
  globals := (m.globals.map fun g => (constant? g.initial).getD g.type.content.zero).toArray
  tables := (m.tables.map fun t =>
    ⟨Array.replicate t.limits.least none, t.limits.most⟩).toArray
  data := (m.data.map fun s => if s.mode = .passive then s.bytes else []).toArray
  elements := (m.elements.map fun s =>
    if s.mode = .passive then s.items.map reference else []).toArray
  fuel := 0

def program? (m : Module) : Option Program := do
  let imported ← m.importedFuncs.mapM fun type => do
    return (⟨← m.types[type]?, [], [.plain .unreachable]⟩ : Function)
  let own ← (m.functions.zip m.bodies).mapM fun (type, body) => do
    return (⟨← m.types[type]?, body.locals, ← Code.ofTokens? m.types body.tokens⟩ : Function)
  return ⟨m.types, (imported ++ own).toArray⟩

def item (m : Module) (p : Program) (entry : Export) : Item :=
  match entry.kind with
  | .func =>
    match p.functions[entry.index]? with
    | some function => .func function.type (p.body entry.index)
    | none => .tag
  | .table => .table
  | .memory => .memory ((m.allMemories[entry.index]?).any (·.limits.shared))
  | .global => .global
  | .tag => .tag

def toCoreModule? (m : Module) : Option CoreModule := do
  let p ← m.program?
  return {
    imports := m.imports.map fun entry => (String.ofList entry.module, String.ofList entry.name)
    exports := m.exports.map fun entry => (String.ofList entry.name, m.item p entry)
    initial := m.initialStore
    segments := m.segments
    start := m.start.map p.body }

end Module

def CoreModule.ofBytes? (bytes : List UInt8) : Option CoreModule := do
  let m ← Module.ofBytes? bytes
  if m.isValid then m.toCoreModule? else none

/-- The engine of this library. It knows neither vectors nor tail calls nor atomic accesses. -/
@[reducible] def Engine.standard : Engine where
  compile := CoreModule.ofBytes?

end SplitEditor.Wasm
