import SplitEditor.Analysis.Accessor
import SplitEditor.Analysis.Binary
import SplitEditor.Text.Codec

/-! One live instance of an analysis binary. The host asks it for memory, writes a source there,
calls one of its services and takes the answer apart with accessor calls. -/

namespace SplitEditor

open Wasm

structure Instance where
  functions : Entry → Body
  /-- Absent if it is not exported, or as something else. -/
  dealloc : Option Body
  store : Store
  budget : Nat
  /-- Every call so far with its arguments, latest first. -/
  calls : List (String × List UInt32)

/-- Something done with an instance. What was done before a failure stays done. -/
abbrev Live := ExceptT AnalysisError (StateM Instance)

structure UploadedSource where
  ptr : UInt32
  len : UInt32
  deriving Repr, DecidableEq

def UploadedSource.isEmpty (b : UploadedSource) : Bool := b.len ≤ 1

namespace Instance

def body? (m : CoreModule) (name : String) (type : FuncType) : Option Body :=
  match m.item? name with
  | some (.func found body) => if found = type then some body else none
  | _ => none

def hasEntry (m : CoreModule) (e : Entry) : Bool := (body? m e.name e.type).isSome

def trap : Body := fun _ store => (none, store)

def placeAll (m : CoreModule) (fuel : Nat) : Except AnalysisError Store :=
  match m.segments.foldlM CoreModule.place { m.initial with fuel } with
  | some store => .ok store
  | none => .error (.module .segmentOutOfBounds)

/-- The memory of the host. One that is shared with others is not for it. -/
def checkMemory (m : CoreModule) : Except AnalysisError Unit :=
  match m.item? Interface.memoryName with
  | some (.memory false) => .ok ()
  | _ => .error (.missingExport Interface.memoryName .notExported)

def start (m : CoreModule) (store : Store) : Except AnalysisError Store :=
  match m.start with
  | none => .ok store
  | some body =>
    match body [] store with
    | (some _, store) => .ok store
    | (none, _) => .error (.module .startTrapped)

def lookups : List Entry :=
  [.alloc, .compile, .hover, .definition, .references, .resultIsOk, .resultOk, .resultError,
    .bufPtr, .bufLen, .errorMsgPtr, .errorMsgLen, .errorSpan, .spanLineFrom, .spanColumnFrom,
    .spanLineTo, .spanColumnTo, .hoverType, .hoverSpan, .spansGet]

/-- The instance, unless one of the functions has another type than it is called with. -/
def resolve (m : CoreModule) (fuel : Nat) (store : Store) : Except AnalysisError Instance :=
  match lookups.find? (!hasEntry m ·) with
  | some e => .error (.missingExport e.name .wrongType)
  | none => .ok {
      functions := fun e => (body? m e.name e.type).getD trap
      dealloc := body? m Interface.deallocName Interface.deallocType
      store := store
      budget := fuel
      calls := [] }

def fuelConsumed (i : Instance) : Nat := i.budget - i.store.fuel

def invoke (name : String) (body : Body) (args : List UInt32) : Live UInt32 :=
  ExceptT.mk fun i =>
    let (result, store) := body args i.store
    let i := { i with store, calls := (name, args) :: i.calls }
    match result with
    | some n => (.ok n, i)
    | none => (.error .execution, i)

def call (e : Entry) (args : List UInt32) : Live UInt32 := do
  invoke e.name ((← get).functions e) args

def outOfBounds (i : Instance) (ptr len : UInt32) : AnalysisError :=
  .outOfBounds ptr len i.store.memory.size

def checkBounds (ptr len : UInt32) : Live Unit := do
  let i ← get
  if ptr.toNat + len.toNat ≤ i.store.memory.size then return ()
  else throw (i.outOfBounds ptr len)

def readBytes (ptr len : UInt32) : Live (List UInt8) := do
  if len = 0 then return []
  checkBounds ptr len
  let i ← get
  match i.store.memory.read ptr.toNat len.toNat with
  | some bytes => return bytes
  | none => throw (i.outOfBounds ptr len)

def writeBytes (ptr : UInt32) (bytes : List UInt8) : Live Unit := do
  let i ← get
  match i.store.memory.write ptr.toNat bytes with
  | some memory => set { i with store := { i.store with memory } }
  | none => throw (i.outOfBounds ptr (UInt32.ofNat bytes.length))

/-- The longest source, in bytes with the zero byte: lengths are signed words. -/
def sourceLimit : Nat := 0x7FFFFFFF

/-- Asks for memory and writes the source there. -/
def upload (codec : Codec) (text : String) : Live UploadedSource := do
  let bytes := codec.encodeSource text
  if sourceLimit < bytes.length then throw (.sourceTooLarge bytes.length sourceLimit)
  let len := UInt32.ofNat bytes.length
  let ptr ← call .alloc [len]
  if ptr = 0 then throw (.allocationFailed bytes.length)
  checkBounds ptr len
  writeBytes ptr bytes
  return ⟨ptr, len⟩

def release (buffer : UploadedSource) : Live Unit := do
  match (← get).dealloc with
  | some body => let _ ← invoke Interface.deallocName body [buffer.ptr, buffer.len]
  | none => return ()

def compile (buffer : UploadedSource) : Live Handle := do
  return ⟨← call .compile [buffer.ptr]⟩

def query (e : Entry) (buffer : UploadedSource) (line column : UInt32) : Live Handle := do
  if line < 0x80000000 ∧ column < 0x80000000 then
    return ⟨← call e [buffer.ptr, line, column]⟩
  else throw (.invalidPosition line column)

def field (e : Entry) (h : Handle) : Live UInt32 := call e [h.word]

def bytesAt (ptr len : Entry) (h : Handle) : Live (List UInt8) := do
  let ptr ← field ptr h
  let len ← field len h
  readBytes ptr len

def answer : (a : Accessor) → Live a.Answer
  | .resultIsOk h => do return (← field .resultIsOk h) != 0
  | .resultOk h => do return ⟨← field .resultOk h⟩
  | .resultError h => do return ⟨← field .resultError h⟩
  | .bufBytes h => bytesAt .bufPtr .bufLen h
  | .errorMessage h => bytesAt .errorMsgPtr .errorMsgLen h
  | .errorSpan h => do return ⟨← field .errorSpan h⟩
  | .span h => do
    let lineFrom ← field .spanLineFrom h
    let columnFrom ← field .spanColumnFrom h
    let lineTo ← field .spanLineTo h
    let columnTo ← field .spanColumnTo h
    return ⟨lineFrom, columnFrom, lineTo, columnTo⟩
  | .hoverType h => do return ⟨← field .hoverType h⟩
  | .hoverSpan h => do return ⟨← field .hoverSpan h⟩
  | .spansGet h index => do
    if index < 0x80000000 then return ⟨← call .spansGet [h.word, index]⟩
    else throw (.malformedResult Entry.spansGet.name (.indexOutOfRange index))

def reader : ResultReader Instance where
  read a i := (answer a).run i

end Instance

def Binary.instantiate (b : Binary) : Except AnalysisError Instance := do
  let store ← Instance.placeAll b.module b.fuel
  let store ← Instance.start b.module store
  Instance.checkMemory b.module
  Instance.resolve b.module b.fuel store

end SplitEditor
