import SplitEditor.Wasm.Code
import SplitEditor.Wasm.Module

/-! Which modules are valid: every index refers to something, and every instruction finds
operands of the types it takes. The instructions that are known are those on numbers,
references, tables and one memory of 32-bit addresses. -/

namespace SplitEditor.Wasm

def RefType.isKnown (type : RefType) : Bool := type = .func ∨ type = .external

def ValueType.isKnown : ValueType → Bool
  | ref type => type.isKnown
  | _ => true

def FuncType.isKnown (type : FuncType) : Bool :=
  (type.params ++ type.results).all ValueType.isKnown &&
    type.params.length ≤ 1000 && type.results.length ≤ 1000

structure Context where
  types : List FuncType
  functions : Array FuncType
  tables : List TableType
  hasMemory : Bool
  globals : List GlobalType
  importedGlobals : Nat
  elements : List RefType
  dataCount : Option Nat
  referable : List Nat
  locals : Array ValueType

/-- A block during the check: what a branch to it carries, what it leaves, and the types of the
operands so far, latest first. After a jump anything can be taken from the operands. -/
structure Scope where
  branch : List ValueType
  results : List ValueType
  /-- The types a condition takes, while its second branch may still come. -/
  condition : Option (List ValueType)
  operands : List (Option ValueType)
  dead : Bool

namespace Scope

abbrev Step := StateT Scope Option

def push (type : Option ValueType) : Step Unit :=
  modify fun s => { s with operands := type :: s.operands }

def popAny : Step (Option ValueType) := do
  let s ← get
  match s.operands with
  | type :: rest =>
    set { s with operands := rest }
    return type
  | [] => if s.dead then return none else failure

def pop (type : ValueType) : Step Unit := do
  match ← popAny with
  | some found => if found ≠ type then failure
  | none => return ()

def popAll (types : List ValueType) : Step Unit := types.reverse.forM pop

def pushAll (types : List ValueType) : Step Unit := types.forM fun type => push (some type)

def apply (type : FuncType) : Step Unit := do
  popAll type.params
  pushAll type.results

def kill : Step Unit := modify fun s => { s with operands := [], dead := true }

end Scope

namespace Context

/-- The type of an instruction whose type does not depend on the operands. -/
def opType? (c : Context) : Op → Option FuncType
  | .nop => some ⟨[], []⟩
  | .call function => c.functions[function]?
  | .callIndirect type table => do
    let table ← c.tables[table]?
    if table.element ≠ .func then none
    let type ← c.types[type]?
    return ⟨type.params ++ [.i32], type.results⟩
  | .localGet i => do return ⟨[], [← c.locals[i]?]⟩
  | .localSet i => do return ⟨[← c.locals[i]?], []⟩
  | .localTee i => do
    let type ← c.locals[i]?
    return ⟨[type], [type]⟩
  | .globalGet i => do return ⟨[], [(← c.globals[i]?).content]⟩
  | .globalSet i => do
    let global ← c.globals[i]?
    if global.mutable then return ⟨[global.content], []⟩ else none
  | .tableGet t => do return ⟨[.i32], [.ref (← c.tables[t]?).element]⟩
  | .tableSet t => do return ⟨[.i32, .ref (← c.tables[t]?).element], []⟩
  | .load access _ => if c.hasMemory then some ⟨[.i32], [access.type]⟩ else none
  | .store access _ => if c.hasMemory then some ⟨[.i32, access.type], []⟩ else none
  | .memorySize => if c.hasMemory then some ⟨[], [.i32]⟩ else none
  | .memoryGrow => if c.hasMemory then some ⟨[.i32], [.i32]⟩ else none
  | .const value =>
    match value with
    | .i32 _ => some ⟨[], [.i32]⟩
    | .i64 _ => some ⟨[], [.i64]⟩
    | .f32 _ => some ⟨[], [.f32]⟩
    | .f64 _ => some ⟨[], [.f64]⟩
    | .ref _ => none
  | .numeric op => some op.type
  | .refNull type => if type.isKnown then some ⟨[], [.ref type]⟩ else none
  | .refFunc function => if c.referable.contains function then some ⟨[], [.ref .func]⟩ else none
  | .memoryInit segment =>
    if c.hasMemory ∧ segment < c.dataCount.getD 0 then some ⟨[.i32, .i32, .i32], []⟩ else none
  | .dataDrop segment => if segment < c.dataCount.getD 0 then some ⟨[], []⟩ else none
  | .memoryCopy | .memoryFill => if c.hasMemory then some ⟨[.i32, .i32, .i32], []⟩ else none
  | .tableInit segment table => do
    if (← c.elements[segment]?) = (← c.tables[table]?).element then
      return ⟨[.i32, .i32, .i32], []⟩
    else none
  | .elementDrop segment => do
    let _ ← c.elements[segment]?
    return ⟨[], []⟩
  | .tableCopy dest source => do
    if (← c.tables[dest]?).element = (← c.tables[source]?).element then
      return ⟨[.i32, .i32, .i32], []⟩
    else none
  | .tableGrow t => do return ⟨[.ref (← c.tables[t]?).element, .i32], [.i32]⟩
  | .tableSize t => do
    let _ ← c.tables[t]?
    return ⟨[], [.i32]⟩
  | .tableFill t => do return ⟨[.i32, .ref (← c.tables[t]?).element, .i32], []⟩
  | .unreachable | .br _ | .brIf _ | .brTable _ _ | .ret | .drop | .select _ | .refIsNull => none

def isRef : Option ValueType → Bool
  | some (.ref _) => true
  | _ => false

/-- Checks an instruction inside a scope. -/
def checkOp (c : Context) (outer : List Scope) (op : Op) : Scope.Step Unit := do
  let label (depth : Nat) : Scope.Step (List ValueType) := do
    match depth with
    | 0 => return (← get).branch
    | depth + 1 => return (← outer[depth]?).branch
  match op with
  | .unreachable => Scope.kill
  | .br depth =>
    Scope.popAll (← label depth)
    Scope.kill
  | .brIf depth =>
    Scope.pop .i32
    let types ← label depth
    Scope.popAll types
    Scope.pushAll types
  | .brTable depths default =>
    Scope.pop .i32
    let types ← label default
    for depth in depths do
      let others ← label depth
      if others.length ≠ types.length then failure
      let s ← get
      Scope.popAll others
      set s
    Scope.popAll types
    Scope.kill
  | .ret =>
    let results := ((outer.getLast?).getD (← get)).results
    Scope.popAll results
    Scope.kill
  | .drop => let _ ← Scope.popAny
  | .select (some type) =>
    if !type.isKnown then failure
    Scope.apply ⟨[type, type, .i32], [type]⟩
  | .select none =>
    Scope.pop .i32
    let a ← Scope.popAny
    let b ← Scope.popAny
    if isRef a || isRef b then failure
    if a.isSome && b.isSome && a != b then failure
    Scope.push (a <|> b)
  | .refIsNull =>
    let type ← Scope.popAny
    if type.isSome && !isRef type then failure
    Scope.push (some .i32)
  | op => Scope.apply (← c.opType? op)

/-- The scopes during the check of a function, innermost first; none are left at its end. -/
def checkToken (c : Context) (scopes : List Scope) (token : Token) : Option (List Scope) := do
  let enter (type : BlockType) (isLoop isCond : Bool) : Option (List Scope) := do
    let s :: outer := scopes | none
    let type ← Code.resolve c.types type
    if !type.isKnown then none
    let (_, s) ← (do
      if isCond then Scope.pop .i32
      Scope.popAll type.params : Scope.Step Unit) s
    return ⟨if isLoop then type.params else type.results, type.results,
      if isCond then some type.params else none, (type.params.map some).reverse, false⟩ :: s :: outer
  let leave (s : Scope) : Option Unit := do
    let (_, s) ← Scope.popAll s.results s
    if s.operands.isEmpty then return () else none
  match scopes, token with
  | s :: outer, .plain op => do
    let (_, s) ← c.checkOp outer op s
    return s :: outer
  | _, .block type => enter type false false
  | _, .loop type => enter type true false
  | _, .cond type => enter type false true
  | s :: outer, .otherwise => do
    let params ← s.condition
    leave s
    return { s with condition := none, operands := (params.map some).reverse, dead := false } :: outer
  | [s], .finish => do
    leave s
    return []
  | s :: t :: outer, .finish => do
    leave s
    if s.condition.any (· ≠ s.results) then none
    return { t with operands := (s.results.map some).reverse ++ t.operands } :: outer
  | [], _ => none

def checkBody (c : Context) (type : FuncType) (body : FunctionBody) : Bool :=
  let c := { c with locals := (type.params ++ body.locals).toArray }
  let scope : Scope := ⟨type.results, type.results, none, [], false⟩
  body.locals.all ValueType.isKnown &&
    (body.tokens.foldlM c.checkToken [scope]).any List.isEmpty

/-- The type of a constant expression. It may use the globals that come from outside, as long as
they never change, and add and multiply integers. -/
def constantType? (c : Context) (ops : List Op) : Option (List ValueType) := do
  let constants := (c.globals.take c.importedGlobals).map fun g => { g with mutable := false }
  let isConstant : Op → Bool
    | .const _ | .refNull _ | .refFunc _ => true
    | .numeric (.intBinary _ op) => op = .add || op = .sub || op = .mul
    | .globalGet i => (c.globals[i]?).any (!·.mutable)
    | _ => false
  if !ops.all isConstant then none
  let run : Scope.Step Unit := ops.forM ({ c with globals := constants }.checkOp [])
  let (_, s) ← run ⟨[], [], none, [], false⟩
  s.operands.reverse.mapM id

def isConstantOf (c : Context) (type : ValueType) (ops : List Op) : Bool :=
  c.constantType? ops = some [type]

end Context

def Limits.isKnown (limits : Limits) (greatest : Nat) : Bool :=
  !limits.wide && limits.least ≤ greatest &&
    limits.most.all fun most => limits.least ≤ most && most ≤ greatest

namespace Module

def importedFuncs (m : Module) : List Nat :=
  m.imports.filterMap fun entry =>
    match entry.type with
    | .func type => some type
    | _ => none

def importedTables (m : Module) : List TableType :=
  m.imports.filterMap fun entry =>
    match entry.type with
    | .table type => some type
    | _ => none

def importedMemories (m : Module) : List MemoryType :=
  m.imports.filterMap fun entry =>
    match entry.type with
    | .memory type => some type
    | _ => none

def importedGlobals (m : Module) : List GlobalType :=
  m.imports.filterMap fun entry =>
    match entry.type with
    | .global type => some type
    | _ => none

def allFunctions (m : Module) : List Nat := m.importedFuncs ++ m.functions

def allTables (m : Module) : List TableType := m.importedTables ++ m.tables

def allMemories (m : Module) : List MemoryType := m.importedMemories ++ m.memories

def allGlobals (m : Module) : List GlobalType := m.importedGlobals ++ m.globals.map (·.type)

def referable (m : Module) : List Nat :=
  let referred (ops : List Op) : List Nat := ops.filterMap fun op =>
    match op with
    | .refFunc function => some function
    | _ => none
  m.globals.flatMap (referred ·.initial) ++ m.elements.flatMap (·.items.flatMap referred) ++
    m.exports.filterMap fun entry => if entry.kind = .func then some entry.index else none

def context (m : Module) : Option Context := do
  let functions ← m.allFunctions.mapM fun type => m.types[type]?
  return {
    types := m.types
    functions := functions.toArray
    tables := m.allTables
    hasMemory := !m.allMemories.isEmpty
    globals := m.allGlobals
    importedGlobals := m.importedGlobals.length
    elements := m.elements.map (·.type)
    dataCount := m.dataCount
    referable := m.referable
    locals := #[] }

def memoryIsValid (type : MemoryType) : Bool :=
  type.limits.isKnown 65536 && type.pageSize.isNone &&
    (!type.limits.shared || type.limits.most.isSome)

def tableLimit : Nat := 10000000

def tableIsValid (type : TableType) : Bool :=
  type.element.isKnown && type.limits.isKnown 0xFFFFFFFF && type.limits.least ≤ tableLimit &&
    !type.limits.shared

def globalIsValid (type : GlobalType) : Bool := type.content.isKnown && !type.shared

def importIsValid (m : Module) (entry : Import) : Bool :=
  match entry.type with
  | .func type => type < m.types.length
  | .table type => tableIsValid type
  | .memory type => memoryIsValid type
  | .global type => globalIsValid type
  | .tag _ => false

def exportIsValid (m : Module) (entry : Export) : Bool :=
  match entry.kind with
  | .func => entry.index < m.allFunctions.length
  | .table => entry.index < m.allTables.length
  | .memory => entry.index < m.allMemories.length
  | .global => entry.index < m.allGlobals.length
  | .tag => false

def dataIsValid (c : Context) (segment : DataSegment) : Bool :=
  match segment.mode with
  | .active memory offset => memory = 0 && c.hasMemory && c.isConstantOf .i32 offset
  | _ => true

def elementIsValid (c : Context) (segment : ElementSegment) : Bool :=
  segment.type.isKnown && segment.items.all (c.isConstantOf (.ref segment.type)) &&
    match segment.mode with
    | .active table offset =>
      (c.tables[table]?).any (·.element = segment.type) && c.isConstantOf .i32 offset
    | _ => true

/-- Everything in the module refers to something and fits together. -/
def isValid (m : Module) : Bool :=
  m.types.all FuncType.isKnown && m.imports.all m.importIsValid &&
  m.tables.all tableIsValid && m.memories.all memoryIsValid && m.allMemories.length ≤ 1 &&
  m.exports.all m.exportIsValid && (m.exports.map (·.name)).eraseDups.length = m.exports.length &&
  m.functions.length = m.bodies.length && m.dataCount.all (· = m.data.length) &&
  m.context.any fun c =>
    let constants := { c with referable := List.range c.functions.size }
    m.globals.all (fun g =>
      globalIsValid g.type && constants.isConstantOf g.type.content g.initial) &&
    m.start.all (fun function => c.functions[function]? = some ⟨[], []⟩) &&
    m.elements.all (elementIsValid constants) && m.data.all (dataIsValid constants) &&
    (m.functions.zip m.bodies).all fun (type, body) =>
      (m.types[type]?).any fun type => c.checkBody type body

end Module

end SplitEditor.Wasm
