import Std.Data.TreeMap

/-! A linear memory: bytes addressed from zero on, in pages. Bytes never written are zero. -/

namespace SplitEditor.Wasm

structure Memory where
  pages : Nat
  limit : Option Nat
  cells : Std.TreeMap Nat UInt8

namespace Memory

def pageSize : Nat := 65536

def pageLimit : Nat := 65536

def ofPages (pages : Nat) (limit : Option Nat) : Memory := ⟨pages, limit, ∅⟩

def size (m : Memory) : Nat := m.pages * pageSize

def byte (m : Memory) (address : Nat) : UInt8 := m.cells.getD address 0

def read (m : Memory) (address length : Nat) : Option (List UInt8) :=
  if address + length ≤ m.size then some ((List.range' address length).map m.byte) else none

def put (cells : Std.TreeMap Nat UInt8) (address : Nat) : List UInt8 → Std.TreeMap Nat UInt8
  | [] => cells
  | b :: rest => put (cells.insert address b) (address + 1) rest

def write (m : Memory) (address : Nat) (bytes : List UInt8) : Option Memory :=
  if address + bytes.length ≤ m.size then some { m with cells := put m.cells address bytes }
  else none

def grow (m : Memory) (pages : Nat) : Option Memory :=
  if m.pages + pages ≤ min pageLimit (m.limit.getD pageLimit) then
    some { m with pages := m.pages + pages }
  else none

def littleEndian (bytes : List UInt8) : Nat :=
  bytes.foldr (fun b n => b.toNat + 256 * n) 0

def bytesOf : Nat → Nat → List UInt8
  | 0, _ => []
  | length + 1, n => UInt8.ofNat n :: bytesOf length (n / 256)

def load (m : Memory) (address length : Nat) : Option Nat :=
  (m.read address length).map littleEndian

def store (m : Memory) (address length n : Nat) : Option Memory :=
  m.write address (bytesOf length n)

end Memory

end SplitEditor.Wasm
