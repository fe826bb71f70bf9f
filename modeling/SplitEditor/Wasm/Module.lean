import SplitEditor.Wasm.Instruction
import SplitEditor.Wasm.Part

/-! A core module as its sections describe it, every entry read. Reading refuses what does not
follow the format: another version, a section out of order or given twice, entries that do not
fill their section. What the entries refer to is not checked here. -/

namespace SplitEditor.Wasm

structure Global where
  type : GlobalType
  initial : List Op
  deriving Repr, DecidableEq

inductive SegmentMode where
  | passive
  | active (index : Nat) (offset : List Op)
  | declared
  deriving Repr, DecidableEq

structure ElementSegment where
  mode : SegmentMode
  type : RefType
  items : List (List Op)
  deriving Repr, DecidableEq

structure DataSegment where
  mode : SegmentMode
  bytes : List UInt8
  deriving Repr, DecidableEq

structure FunctionBody where
  locals : List ValueType
  tokens : List Token
  deriving Repr, DecidableEq

structure Module where
  types : List FuncType := []
  imports : List Import := []
  functions : List Nat := []
  tables : List TableType := []
  memories : List MemoryType := []
  globals : List Global := []
  exports : List Export := []
  start : Option Nat := none
  elements : List ElementSegment := []
  dataCount : Option Nat := none
  bodies : List FunctionBody := []
  data : List DataSegment := []
  deriving Repr, DecidableEq

namespace Reader

def globalEntry : Reader Global := do return ⟨← globalType, ← constant⟩

def functionItem : Reader (List Op) := do return [.refFunc (← u32)]

def functionKind : Reader RefType := do
  zero
  return .func

def elementSegment : Reader ElementSegment := do
  match ← u32 with
  | 0 => return ⟨.active 0 (← constant), .func, ← vector functionItem⟩
  | 1 => return ⟨.passive, ← functionKind, ← vector functionItem⟩
  | 2 =>
    let table ← u32
    let offset ← constant
    return ⟨.active table offset, ← functionKind, ← vector functionItem⟩
  | 3 => return ⟨.declared, ← functionKind, ← vector functionItem⟩
  | 4 => return ⟨.active 0 (← constant), .func, ← vector constant⟩
  | 5 => return ⟨.passive, ← refType, ← vector constant⟩
  | 6 =>
    let table ← u32
    let offset ← constant
    return ⟨.active table offset, ← refType, ← vector constant⟩
  | 7 => return ⟨.declared, ← refType, ← vector constant⟩
  | _ => failure

def bytes : Reader (List UInt8) := do take (← u32)

def dataSegment : Reader DataSegment := do
  match ← u32 with
  | 0 => return ⟨.active 0 (← constant), ← bytes⟩
  | 1 => return ⟨.passive, ← bytes⟩
  | 2 =>
    let memory ← u32
    return ⟨.active memory (← constant), ← bytes⟩
  | _ => failure

def localLimit : Nat := 50000

def localGroup : Reader (Nat × ValueType) := do return (← u32, ← valueType)

def functionBody : Reader FunctionBody := do
  let groups ← vector localGroup
  if localLimit < groups.foldr (fun group total => group.1 + total) 0 then failure
  let tokens ← fun bytes => tokens bytes.length bytes
  return ⟨groups.flatMap fun (n, type) => List.replicate n type, tokens⟩

end Reader

namespace Part

/-- Where in a module a section stands; custom sections stand anywhere. -/
def rank? : Part → Option Nat
  | .entries .types _ _ => some 1
  | .entries .imports _ _ => some 2
  | .entries .functions _ _ => some 3
  | .entries .tables _ _ => some 4
  | .entries .memories _ _ => some 5
  | .entries .globals _ _ => some 6
  | .entries .exports _ _ => some 7
  | .start _ => some 8
  | .entries .elements _ _ => some 9
  | .dataCount _ => some 10
  | .code _ => some 11
  | .entries .data _ _ => some 12
  | .entries .tags _ _ | .header _ _ | .custom | .unknown => none

end Part

namespace Module

def entries? {α : Type} (entry : Reader α) (count : Nat) (body : List UInt8) : Option (List α) :=
  Reader.all? (Reader.many entry count) body

/-- The module with one more section. -/
def add (m : Module) (part : Part) : Option Module :=
  match part with
  | .entries .types n body => do return { m with types := ← entries? Reader.funcType n body }
  | .entries .imports n body =>
    do return { m with imports := ← entries? Reader.importEntry n body }
  | .entries .functions n body => do return { m with functions := ← entries? Reader.u32 n body }
  | .entries .tables n body => do return { m with tables := ← entries? Reader.tableType n body }
  | .entries .memories n body =>
    do return { m with memories := ← entries? Reader.memoryType n body }
  | .entries .globals n body =>
    do return { m with globals := ← entries? Reader.globalEntry n body }
  | .entries .exports n body =>
    do return { m with exports := ← entries? Reader.exportEntry n body }
  | .start function => some { m with start := some function }
  | .entries .elements n body =>
    do return { m with elements := ← entries? Reader.elementSegment n body }
  | .dataCount n => some { m with dataCount := some n }
  | .code bodies => do return { m with bodies := ← bodies.mapM (Reader.all? Reader.functionBody) }
  | .entries .data n body => do return { m with data := ← entries? Reader.dataSegment n body }
  | .custom => some m
  | .entries .tags _ _ | .header _ _ | .unknown => none

def addInOrder : Nat × Module → Part → Option (Nat × Module)
  | (last, m), part => do
    let m ← m.add part
    match part.rank? with
    | none => return (last, m)
    | some rank => if last < rank then return (rank, m) else none

def ofParts? : List Part → Option Module
  | .header 1 .module :: sections => (sections.foldlM addInOrder (0, {})).map (·.2)
  | _ => none

def ofBytes? (bytes : List UInt8) : Option Module := do ofParts? (← Part.ofBytes? bytes)

end Module

end SplitEditor.Wasm
