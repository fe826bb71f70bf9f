import SplitEditor.Wasm.Reader

/-! The types of what a module imports, holds and exports, and how they are written. -/

namespace SplitEditor.Wasm

inductive HeapType where
  | func
  | external
  | any
  | eq
  | i31
  | struct
  | array
  | exn
  | none
  | noExternal
  | noFunc
  | noExn
  deriving Repr, DecidableEq

inductive Target where
  | abstract (shared : Bool) (heap : HeapType)
  | concrete (index : Nat)
  deriving Repr, DecidableEq

structure RefType where
  nullable : Bool
  target : Target
  deriving Repr, DecidableEq

inductive ValueType where
  | i32
  | i64
  | f32
  | f64
  | v128
  | ref (type : RefType)
  deriving Repr, DecidableEq

structure FuncType where
  params : List ValueType
  results : List ValueType
  deriving Repr, DecidableEq

/-- How large a memory or a table is at first, and how large it may become. -/
structure Limits where
  least : Nat
  most : Option Nat
  wide : Bool
  shared : Bool
  deriving Repr, DecidableEq

structure TableType where
  element : RefType
  limits : Limits
  deriving Repr, DecidableEq

structure MemoryType where
  limits : Limits
  /-- The binary logarithm of the page size, if it is not the usual one. -/
  pageSize : Option Nat
  deriving Repr, DecidableEq

structure GlobalType where
  content : ValueType
  mutable : Bool
  shared : Bool
  deriving Repr, DecidableEq

inductive ImportType where
  | func (type : Nat)
  | table (type : TableType)
  | memory (type : MemoryType)
  | global (type : GlobalType)
  | tag (type : Nat)
  deriving Repr, DecidableEq

structure Import where
  module : List Char
  name : List Char
  type : ImportType
  deriving Repr, DecidableEq

inductive ExternKind where
  | func
  | table
  | memory
  | global
  | tag
  deriving Repr, DecidableEq

structure Export where
  name : List Char
  kind : ExternKind
  index : Nat
  deriving Repr, DecidableEq

def RefType.func : RefType := ⟨true, .abstract false .func⟩

def RefType.external : RefType := ⟨true, .abstract false .external⟩

def HeapType.ofByte? : UInt8 → Option HeapType
  | 0x70 => some func
  | 0x6F => some external
  | 0x6E => some any
  | 0x6D => some eq
  | 0x6C => some i31
  | 0x6B => some struct
  | 0x6A => some array
  | 0x69 => some exn
  | 0x71 => some none
  | 0x72 => some noExternal
  | 0x73 => some noFunc
  | 0x74 => some noExn
  | _ => Option.none

namespace Reader

def heapType : Reader HeapType := do HeapType.ofByte? (← byte)

def typeLimit : Nat := 0x100000

/-- An abstract heap type, or the index of a type as a signed number of 33 bits. -/
def target : Reader Target := fun bytes =>
  match bytes with
  | 0x65 :: rest => (heapType rest).map fun (heap, rest) => (.abstract true heap, rest)
  | b :: rest =>
    match HeapType.ofByte? b with
    | some heap => some (.abstract false heap, rest)
    | none => do
      let (n, rest) ← signedFrom 33 bytes
      if 0 ≤ n ∧ n < typeLimit then return (.concrete n.toNat, rest) else failure
  | [] => none

def refTypeOf (b : UInt8) : Reader RefType :=
  match b with
  | 0x63 => do return ⟨true, ← target⟩
  | 0x64 => do return ⟨false, ← target⟩
  | 0x65 => do return ⟨true, .abstract true (← heapType)⟩
  | b => do return ⟨true, .abstract false (← HeapType.ofByte? b)⟩

def refType : Reader RefType := do refTypeOf (← byte)

def valueType : Reader ValueType := do
  match ← byte with
  | 0x7F => return .i32
  | 0x7E => return .i64
  | 0x7D => return .f32
  | 0x7C => return .f64
  | 0x7B => return .v128
  | b => return .ref (← refTypeOf b)

def whenSet {α : Type} (flag : UInt8) (reader : Reader α) : Reader (Option α) :=
  if flag = 0 then return none else do return some (← reader)

def limits (flags : UInt8) : Reader Limits := do
  let wide := flags &&& 4 != 0
  let size := if wide then u64 else u32
  let least ← size
  let most ← whenSet (flags &&& 1) size
  return ⟨least, most, wide, flags &&& 2 != 0⟩

def tableType : Reader TableType := do
  let element ← refType
  let flags ← byte
  if 7 < flags then failure
  return ⟨element, ← limits flags⟩

def memoryType : Reader MemoryType := do
  let flags ← byte
  if 15 < flags then failure
  let limits ← limits flags
  let pageSize ← whenSet (flags &&& 8) u32
  return ⟨limits, pageSize⟩

def globalType : Reader GlobalType := do
  let content ← valueType
  let flags ← byte
  if 3 < flags then failure
  return ⟨content, flags &&& 1 != 0, flags &&& 2 != 0⟩

def tagType : Reader Nat := do
  if (← byte) ≠ 0 then failure
  u32

def externKind : Reader ExternKind := do
  match ← byte with
  | 0 => return .func
  | 1 => return .table
  | 2 => return .memory
  | 3 => return .global
  | 4 => return .tag
  | _ => failure

def importType : Reader ImportType := do
  match ← externKind with
  | .func => return .func (← u32)
  | .table => return .table (← tableType)
  | .memory => return .memory (← memoryType)
  | .global => return .global (← globalType)
  | .tag => return .tag (← tagType)

def importEntry : Reader Import := do return ⟨← name, ← name, ← importType⟩

def exportEntry : Reader Export := do return ⟨← name, ← externKind, ← u32⟩

def funcType : Reader FuncType := do
  if (← byte) ≠ 0x60 then failure
  return ⟨← vector valueType, ← vector valueType⟩

end Reader

end SplitEditor.Wasm
