import SplitEditor.Wasm.Code
import SplitEditor.Wasm.CoreModule

/-! Running code. Every step takes one unit of fuel, so a run always ends; without fuel it
traps. Only code of valid modules is run: for other code a step may trap where no rule fits. -/

namespace SplitEditor.Wasm

structure Function where
  type : FuncType
  locals : List ValueType
  code : List Code

structure Program where
  types : List FuncType
  functions : Array Function

/-- A block that is being run: where a branch to it goes on and with how many operands, where
its end goes on, and the operands below it. -/
structure Label where
  arity : Nat
  target : List Code
  rest : List Code
  stack : List Value

structure Frame where
  code : List Code
  stack : List Value
  labels : List Label
  locals : List Value
  results : Nat

inductive Outcome where
  | running (frame : Frame) (callers : List Frame) (store : Store)
  | finished (results : List Value) (store : Store)
  | trapped (store : Store)
  | endless (store : Store)

namespace Access

/-- The value that bytes in memory stand for. -/
def value (a : Access) (n : Nat) : Value :=
  match a.type with
  | .i64 =>
    .i64 (UInt64.ofNat (if a.signed then (IntUnary.extendFrom (8 * a.bytes)).eval .w64 n else n))
  | .f32 => .f32 (UInt32.ofNat n)
  | .f64 => .f64 (UInt64.ofNat n)
  | _ =>
    .i32 (UInt32.ofNat (if a.signed then (IntUnary.extendFrom (8 * a.bytes)).eval .w32 n else n))

end Access

def Value.bits? : Value → Option Nat
  | i32 n | f32 n => some n.toNat
  | i64 n | f64 n => some n.toNat
  | ref _ => none

namespace Frame

def push (f : Frame) (v : Value) : Frame := { f with stack := v :: f.stack }

def result (f : Frame) (rest : List Value) (n : Nat) : Frame :=
  { f with stack := .i32 (UInt32.ofNat n) :: rest }

/-- Runs an instruction that neither jumps nor calls. -/
def plain (f : Frame) (op : Op) (store : Store) : Option (Frame × Store) := do
  match op, f.stack with
  | .nop, _ => return (f, store)
  | .drop, _ :: rest => return ({ f with stack := rest }, store)
  | .select _, .i32 c :: b :: a :: rest =>
    return ({ f with stack := (if c = 0 then b else a) :: rest }, store)
  | .localGet i, _ => return (f.push (← f.locals[i]?), store)
  | .localSet i, a :: rest => return ({ f with stack := rest, locals := f.locals.set i a }, store)
  | .localTee i, a :: _ => return ({ f with locals := f.locals.set i a }, store)
  | .globalGet i, _ => return (f.push (← store.globals[i]?), store)
  | .globalSet i, a :: rest =>
    return ({ f with stack := rest }, { store with globals := store.globals.set! i a })
  | .load access offset, .i32 base :: rest =>
    let n ← store.memory.load (base.toNat + offset) access.bytes
    return ({ f with stack := access.value n :: rest }, store)
  | .store access offset, a :: .i32 base :: rest =>
    let memory ← store.memory.store (base.toNat + offset) access.bytes (← a.bits?)
    return ({ f with stack := rest }, { store with memory })
  | .memorySize, _ => return (f.result f.stack store.memory.pages, store)
  | .memoryGrow, .i32 n :: rest =>
    match store.memory.grow n.toNat with
    | some memory => return (f.result rest store.memory.pages, { store with memory })
    | none => return (f.result rest 0xFFFFFFFF, store)
  | .const v, _ => return (f.push v, store)
  | .numeric op, stack => return ({ f with stack := ← op.eval stack }, store)
  | .refNull _, _ => return (f.push (.ref none), store)
  | .refIsNull, .ref r :: rest => return (f.result rest (if r.isNone then 1 else 0), store)
  | .refFunc function, _ => return (f.push (.ref (some function)), store)
  | .memoryInit segment, .i32 n :: .i32 s :: .i32 d :: rest =>
    let content ← store.data[segment]?
    if content.length < s.toNat + n.toNat then none
    let memory ← store.memory.write d.toNat ((content.drop s.toNat).take n.toNat)
    return ({ f with stack := rest }, { store with memory })
  | .dataDrop segment, _ => return (f, { store with data := store.data.set! segment [] })
  | .memoryCopy, .i32 n :: .i32 s :: .i32 d :: rest =>
    let content ← store.memory.read s.toNat n.toNat
    let memory ← store.memory.write d.toNat content
    return ({ f with stack := rest }, { store with memory })
  | .memoryFill, .i32 n :: .i32 b :: .i32 d :: rest =>
    if store.memory.size < d.toNat + n.toNat then none
    let memory ← store.memory.write d.toNat (List.replicate n.toNat b.toUInt8)
    return ({ f with stack := rest }, { store with memory })
  | .tableGet t, .i32 i :: rest =>
    let entry ← (← store.tables[t]?).entries[i.toNat]?
    return ({ f with stack := .ref entry :: rest }, store)
  | .tableSet t, .ref r :: .i32 i :: rest =>
    let table ← (← store.tables[t]?).write i.toNat [r]
    return ({ f with stack := rest }, { store with tables := store.tables.set! t table })
  | .tableInit segment t, .i32 n :: .i32 s :: .i32 d :: rest =>
    let content ← store.elements[segment]?
    if content.length < s.toNat + n.toNat then none
    let table ← (← store.tables[t]?).write d.toNat ((content.drop s.toNat).take n.toNat)
    return ({ f with stack := rest }, { store with tables := store.tables.set! t table })
  | .elementDrop segment, _ =>
    return (f, { store with elements := store.elements.set! segment [] })
  | .tableCopy dest source, .i32 n :: .i32 s :: .i32 d :: rest =>
    let entries := (← store.tables[source]?).entries
    if entries.size < s.toNat + n.toNat then none
    let content := (entries.extract s.toNat (s.toNat + n.toNat)).toList
    let table ← (← store.tables[dest]?).write d.toNat content
    return ({ f with stack := rest }, { store with tables := store.tables.set! dest table })
  | .tableGrow t, .i32 n :: .ref r :: rest =>
    let table ← store.tables[t]?
    let size := table.entries.size + n.toNat
    if table.limit.any (· < size) || 10000000 < size then
      return (f.result rest 0xFFFFFFFF, store)
    let grown := { table with entries := table.entries ++ Array.replicate n.toNat r }
    return (f.result rest table.entries.size, { store with tables := store.tables.set! t grown })
  | .tableSize t, _ => return (f.result f.stack (← store.tables[t]?).entries.size, store)
  | .tableFill t, .i32 n :: .ref r :: .i32 i :: rest =>
    let table ← store.tables[t]?
    if table.entries.size < i.toNat + n.toNat then none
    let table ← table.write i.toNat (List.replicate n.toNat r)
    return ({ f with stack := rest }, { store with tables := store.tables.set! t table })
  | _, _ => none

def enter (f : Frame) (params arity : Nat) (body target rest : List Code) : Frame :=
  { f with
    code := body
    stack := f.stack.take params
    labels := ⟨arity, target, rest, f.stack.drop params⟩ :: f.labels }

end Frame

namespace Program

def leave (f : Frame) (callers : List Frame) (store : Store) : Outcome :=
  let results := f.stack.take f.results
  match callers with
  | [] => .finished results store
  | caller :: callers => .running { caller with stack := results ++ caller.stack } callers store

/-- Leaves as many blocks as a branch says, or the function. -/
def branch (f : Frame) (callers : List Frame) (store : Store) (depth : Nat) : Outcome :=
  match f.labels[depth]? with
  | some label =>
    .running { f with
      code := label.target
      stack := f.stack.take label.arity ++ label.stack
      labels := f.labels.drop (depth + 1) } callers store
  | none => leave f callers store

def callee (function : Function) (stack : List Value) : Frame :=
  { code := function.code
    stack := []
    labels := []
    locals := (stack.take function.type.params.length).reverse ++ function.locals.map (·.zero)
    results := function.type.results.length }

def call (p : Program) (f : Frame) (callers : List Frame) (store : Store) (index : Nat) :
    Outcome :=
  match p.functions[index]? with
  | some function =>
    let rest := { f with stack := f.stack.drop function.type.params.length }
    .running (callee function f.stack) (rest :: callers) store
  | none => .trapped store

def indirect? (p : Program) (store : Store) (type table index : Nat) : Option Nat := do
  let function ← (← (← store.tables[table]?).entries[index]?)
  if (← p.functions[function]?).type = (← p.types[type]?) then return function else none

/-- One step: the next instruction, or the end of a block or of the function. -/
def step (p : Program) (f : Frame) (callers : List Frame) (store : Store) : Outcome :=
  match f.code with
  | [] =>
    match f.labels with
    | [] => leave f callers store
    | label :: labels =>
      .running { f with code := label.rest, stack := f.stack ++ label.stack, labels } callers store
  | .block params results body :: rest =>
    .running (f.enter params results body rest rest) callers store
  | .loop _ _ (.plain (.br 0) :: _) :: _ => .endless store
  | .loop params results body :: rest =>
    .running (f.enter params params body (.loop params results body :: rest) rest) callers store
  | .cond params results yes no :: rest =>
    match f.stack with
    | .i32 c :: stack =>
      let body := if c = 0 then no else yes
      .running ({ f with stack }.enter params results body rest rest) callers store
    | _ => .trapped store
  | .plain op :: rest =>
    let f := { f with code := rest }
    match op, f.stack with
    | .unreachable, _ => .trapped store
    | .br depth, _ => branch f callers store depth
    | .brIf depth, .i32 c :: stack =>
      let f := { f with stack }
      if c = 0 then .running f callers store else branch f callers store depth
    | .brTable depths default, .i32 i :: stack =>
      branch { f with stack } callers store (depths.getD i.toNat default)
    | .ret, _ => leave f callers store
    | .call index, _ => p.call f callers store index
    | .callIndirect type table, .i32 i :: stack =>
      match p.indirect? store type table i.toNat with
      | some index => p.call { f with stack } callers store index
      | none => .trapped store
    | op, _ =>
      match f.plain op store with
      | some (f, store) => .running f callers store
      | none => .trapped store

/-- Runs until the outermost function ends, with so many steps at most. An endless loop takes
all steps there are. -/
def run (p : Program) : Nat → Frame → List Frame → Store → Option (List Value) × Store
  | 0, _, _, store => (none, { store with fuel := 0 })
  | fuel + 1, f, callers, store =>
    match p.step f callers store with
    | .running f callers store => run p fuel f callers store
    | .finished results store => (some results, { store with fuel })
    | .trapped store => (none, { store with fuel })
    | .endless store => (none, { store with fuel := 0 })

/-- A function as the host calls it, with words for arguments and result. -/
def body (p : Program) (index : Nat) : Body := fun args store =>
  match p.functions[index]? with
  | none => (none, store)
  | some function =>
    match p.run store.fuel (callee function (args.reverse.map .i32)) [] store with
    | (some (.i32 n :: _), store) => (some n, store)
    | (some _, store) => (some 0, store)
    | (none, store) => (none, store)

end Program

end SplitEditor.Wasm
