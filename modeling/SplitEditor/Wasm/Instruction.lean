import SplitEditor.Wasm.Numeric

/-! Instructions as they are written: one after another, blocks opened and closed by tokens. -/

namespace SplitEditor.Wasm

inductive BlockType where
  | results (types : List ValueType)
  | indexed (type : Nat)
  deriving Repr, DecidableEq

/-- A value in memory: its type outside, the bytes it takes, and whether a narrow one is read
with a sign. -/
structure Access where
  type : ValueType
  bytes : Nat
  signed : Bool
  deriving Repr, DecidableEq

inductive Op where
  | unreachable
  | nop
  | br (depth : Nat)
  | brIf (depth : Nat)
  | brTable (depths : List Nat) (default : Nat)
  | ret
  | call (function : Nat)
  | callIndirect (type table : Nat)
  | drop
  | select (type : Option ValueType)
  | localGet (index : Nat)
  | localSet (index : Nat)
  | localTee (index : Nat)
  | globalGet (index : Nat)
  | globalSet (index : Nat)
  | tableGet (table : Nat)
  | tableSet (table : Nat)
  | load (access : Access) (offset : Nat)
  | store (access : Access) (offset : Nat)
  | memorySize
  | memoryGrow
  | const (value : Value)
  | numeric (op : Numeric)
  | refNull (type : RefType)
  | refIsNull
  | refFunc (function : Nat)
  | memoryInit (segment : Nat)
  | dataDrop (segment : Nat)
  | memoryCopy
  | memoryFill
  | tableInit (segment table : Nat)
  | elementDrop (segment : Nat)
  | tableCopy (dest source : Nat)
  | tableGrow (table : Nat)
  | tableSize (table : Nat)
  | tableFill (table : Nat)
  deriving Repr, DecidableEq

inductive Token where
  | plain (op : Op)
  | block (type : BlockType)
  | loop (type : BlockType)
  | cond (type : BlockType)
  | otherwise
  | finish
  deriving Repr, DecidableEq

namespace Access

def loads : List Access :=
  [⟨.i32, 4, false⟩, ⟨.i64, 8, false⟩, ⟨.f32, 4, false⟩, ⟨.f64, 8, false⟩,
    ⟨.i32, 1, true⟩, ⟨.i32, 1, false⟩, ⟨.i32, 2, true⟩, ⟨.i32, 2, false⟩,
    ⟨.i64, 1, true⟩, ⟨.i64, 1, false⟩, ⟨.i64, 2, true⟩, ⟨.i64, 2, false⟩,
    ⟨.i64, 4, true⟩, ⟨.i64, 4, false⟩]

def stores : List Access :=
  [⟨.i32, 4, false⟩, ⟨.i64, 8, false⟩, ⟨.f32, 4, false⟩, ⟨.f64, 8, false⟩,
    ⟨.i32, 1, false⟩, ⟨.i32, 2, false⟩, ⟨.i64, 1, false⟩, ⟨.i64, 2, false⟩, ⟨.i64, 4, false⟩]

end Access

namespace Reader

/-- Nothing, one type, or the index of a function type. -/
def blockType : Reader BlockType := fun bytes =>
  match bytes with
  | 0x40 :: rest => some (.results [], rest)
  | _ =>
    match valueType bytes with
    | some (type, rest) => some (.results [type], rest)
    | none => do
      let (n, rest) ← signedFrom 33 bytes
      if 0 ≤ n ∧ n < typeLimit then return (.indexed n.toNat, rest) else failure

def offset (bytes : Nat) : Reader Nat := do
  let alignment ← u32
  if bytes.log2 < alignment then failure
  u32

def zero : Reader Unit := do
  if (← byte) ≠ 0 then failure

def bits (length : Nat) : Reader Nat := do
  return (← take length).foldr (fun b n => b.toNat + 256 * n) 0

/-- The instructions behind the byte 0xFC. -/
def extendedOp : Reader Op := do
  let code ← u32
  match code with
  | 8 => let segment ← u32; zero; return .memoryInit segment
  | 9 => return .dataDrop (← u32)
  | 10 => zero; zero; return .memoryCopy
  | 11 => zero; return .memoryFill
  | 12 => let segment ← u32; return .tableInit segment (← u32)
  | 13 => return .elementDrop (← u32)
  | 14 => let dest ← u32; return .tableCopy dest (← u32)
  | 15 => return .tableGrow (← u32)
  | 16 => return .tableSize (← u32)
  | 17 => return .tableFill (← u32)
  | code => return .numeric (← Numeric.saturating? code)

def op (code : UInt8) : Reader Op := do
  match code with
  | 0x00 => return .unreachable
  | 0x01 => return .nop
  | 0x0C => return .br (← u32)
  | 0x0D => return .brIf (← u32)
  | 0x0E => let depths ← vector u32; return .brTable depths (← u32)
  | 0x0F => return .ret
  | 0x10 => return .call (← u32)
  | 0x11 => let type ← u32; return .callIndirect type (← u32)
  | 0x1A => return .drop
  | 0x1B => return .select none
  | 0x1C =>
    match ← vector valueType with
    | [type] => return .select (some type)
    | _ => failure
  | 0x20 => return .localGet (← u32)
  | 0x21 => return .localSet (← u32)
  | 0x22 => return .localTee (← u32)
  | 0x23 => return .globalGet (← u32)
  | 0x24 => return .globalSet (← u32)
  | 0x25 => return .tableGet (← u32)
  | 0x26 => return .tableSet (← u32)
  | 0x3F => zero; return .memorySize
  | 0x40 => zero; return .memoryGrow
  | 0x41 => return .const (.i32 (UInt32.ofInt (← signed 32)))
  | 0x42 => return .const (.i64 (UInt64.ofInt (← signed 64)))
  | 0x43 => return .const (.f32 (UInt32.ofNat (← bits 4)))
  | 0x44 => return .const (.f64 (UInt64.ofNat (← bits 8)))
  | 0xD0 => return .refNull ⟨true, ← target⟩
  | 0xD1 => return .refIsNull
  | 0xD2 => return .refFunc (← u32)
  | 0xFC => extendedOp
  | code =>
    let n := code.toNat
    if 0x28 ≤ n ∧ n < 0x36 then
      let access ← Access.loads[n - 0x28]?
      return .load access (← offset access.bytes)
    else if 0x36 ≤ n ∧ n < 0x3F then
      let access ← Access.stores[n - 0x36]?
      return .store access (← offset access.bytes)
    else return .numeric (← Numeric.ofCode? n)

def token : Reader Token := do
  match ← byte with
  | 0x02 => return .block (← blockType)
  | 0x03 => return .loop (← blockType)
  | 0x04 => return .cond (← blockType)
  | 0x05 => return .otherwise
  | 0x0B => return .finish
  | code => return .plain (← op code)

/-- Tokens up to the end of the bytes; there are at most as many as bytes. -/
def tokens : Nat → Reader (List Token)
  | 0, bytes => if bytes.isEmpty then some ([], []) else none
  | n + 1, bytes =>
    if bytes.isEmpty then some ([], [])
    else do
      let (first, rest) ← token bytes
      let (others, rest) ← tokens n rest
      return (first :: others, rest)

def expression : Nat → Reader (List Op)
  | 0 => failure
  | n + 1 => do
    match ← token with
    | .finish => return []
    | .plain op => return op :: (← expression n)
    | _ => failure

def constant : Reader (List Op) := fun bytes => expression bytes.length bytes

end Reader

end SplitEditor.Wasm
