import SplitEditor.Wasm.Memory
import SplitEditor.Wasm.Numeric

/-! A module as its host sees it: names, memory and functions that can be called. Calling a
function changes the store and gives a result, or traps; what it did before it trapped stays. -/

namespace SplitEditor.Wasm

structure Table where
  entries : Array (Option Nat)
  limit : Option Nat

/-- All that a running instance can change. -/
structure Store where
  memory : Memory
  globals : Array Value
  tables : Array Table
  data : Array (List UInt8)
  elements : Array (List (Option Nat))
  fuel : Nat

/-- Takes its arguments and the store; no result is a trap. A function without a result gives
zero. -/
abbrev Body := List UInt32 → Store → Option UInt32 × Store

inductive Item where
  | func (type : FuncType) (body : Body)
  | table
  | memory (shared : Bool)
  | global
  | tag

/-- What is copied when a module is instantiated. -/
inductive Segment where
  | bytes (address : Nat) (content : List UInt8)
  | references (table offset : Nat) (content : List (Option Nat))

structure CoreModule where
  /-- Module and name of what the host would have to provide. -/
  imports : List (String × String)
  exports : List (String × Item)
  initial : Store
  segments : List Segment
  start : Option Body

def Table.write (t : Table) (offset : Nat) (content : List (Option Nat)) : Option Table :=
  if offset + content.length ≤ t.entries.size then
    some { t with
      entries := (content.foldl (fun (entries, i) entry => (entries.set! i entry, i + 1))
        (t.entries, offset)).1 }
  else none

namespace CoreModule

def item? (m : CoreModule) (name : String) : Option Item := m.exports.lookup name

def place (store : Store) : Segment → Option Store
  | .bytes address content => do
    return { store with memory := ← store.memory.write address content }
  | .references table offset content => do
    let t ← store.tables[table]?
    let t ← t.write offset content
    return { store with tables := store.tables.set! table t }

end CoreModule

/-- What compiles modules. Bytes that it does not take for a module are not compiled. -/
class Engine where
  compile : List UInt8 → Option CoreModule

end SplitEditor.Wasm
