import Mathlib.Data.List.Forall2
import SplitEditor.Proofs.Analysis.Service

/-! Results as records in the memory of an instance. A record is words one after another, and
its handle is the address of the first:

    result   tag, value          (the tag of an error is zero)
    buffer   address, length
    error    message address, message length, span
    span     first line, first column, last line, last column
    hover    type buffer, span
    list     count, span, span, …
-/

namespace SplitEditor

open Wasm

namespace Layout

structure Word (m : Memory) (address : Nat) (w : UInt32) : Prop where
  addressable : address + 4 ≤ UInt32.size
  load : m.load address 4 = some w.toNat

def Record (m : Memory) (h : UInt32) (words : List UInt32) : Prop :=
  ∀ k w, words[k]? = some w → Word m (h.toNat + 4 * k) w

instance (m : Memory) (address : Nat) (w : UInt32) : Decidable (Word m address w) :=
  decidable_of_iff (address + 4 ≤ UInt32.size ∧ m.load address 4 = some w.toNat)
    ⟨fun ⟨haddress, hload⟩ => ⟨haddress, hload⟩, fun h => ⟨h.addressable, h.load⟩⟩

theorem record_iff {m : Memory} {h : UInt32} {words : List UInt32} : Record m h words ↔
    ∀ k : Fin words.length, Word m (h.toNat + 4 * k) words[k] := by
  constructor
  · intro hrecord k
    exact hrecord k _ (List.getElem?_eq_getElem k.isLt)
  · intro hwords k w hk
    obtain ⟨hlt, rfl⟩ := List.getElem?_eq_some_iff.1 hk
    exact hwords ⟨k, hlt⟩

instance (m : Memory) (h : UInt32) (words : List UInt32) : Decidable (Record m h words) :=
  decidable_of_iff _ record_iff.symm

section Placement
variable (m : Memory) (h : Handle)

structure OkAt (value : UInt32) : Prop where
  present : h.word ≠ 0
  words : ∃ tag, tag ≠ 0 ∧ Record m h.word [tag, value]

structure FailAt (value : UInt32) : Prop where
  present : h.word ≠ 0
  words : Record m h.word [0, value]

structure BufAt (bytes : List UInt8) : Prop where
  present : h.word ≠ 0
  words : ∃ ptr len, Record m h.word [ptr, len] ∧ m.read ptr.toNat len.toNat = some bytes

structure SpanAt (span : Span) : Prop where
  present : h.word ≠ 0
  words : Record m h.word [span.lineFrom, span.columnFrom, span.lineTo, span.columnTo]

def SpanAt? : Option Span → Prop
  | none => h.word = 0
  | some span => SpanAt m h span

structure ErrorAt (d : Diagnostic) : Prop where
  present : h.word ≠ 0
  words : ∃ ptr len span, Record m h.word [ptr, len, span] ∧
    m.read ptr.toNat len.toNat = some (Utf8.encode d.message.toList) ∧ SpanAt? m ⟨span⟩ d.span

structure HoverAt (t : SymbolType) : Prop where
  present : h.word ≠ 0
  words : ∃ type span, Record m h.word [type, span] ∧
    BufAt m ⟨type⟩ (Utf8.encode t.type.toList) ∧ SpanAt m ⟨span⟩ t.span

structure SpansAt (spans : List Span) : Prop where
  present : h.word ≠ 0
  short : spans.length < 0x80000000
  words : ∃ handles, Record m h.word (UInt32.ofNat spans.length :: handles) ∧
    List.Forall₂ (fun word span => SpanAt m ⟨word⟩ span) handles spans

def ValueAt {α : Type} (At : Handle → α → Prop) : Option α → Prop
  | none => OkAt m h 0
  | some a => ∃ value, OkAt m h value ∧ At ⟨value⟩ a

/-- The handle is that of a result which stands for the answer. -/
def Placed : (s : Service) → s.Answer → Prop
  | .compile, .compiled bytes => ∃ buf, OkAt m h buf ∧ BufAt m ⟨buf⟩ bytes
  | .compile, .failed d => ∃ error, FailAt m h error ∧ ErrorAt m ⟨error⟩ d
  | .hover .., answer => ValueAt m h (HoverAt m) answer
  | .definition .., answer => ValueAt m h (SpanAt m) answer
  | .references .., answer => ValueAt m h (SpansAt m) answer

end Placement

def field? : Entry → Option Nat
  | .resultIsOk | .bufPtr | .errorMsgPtr | .spanLineFrom | .hoverType => some 0
  | .bufLen | .errorMsgLen | .spanColumnFrom | .hoverSpan => some 1
  | .errorSpan | .spanLineTo => some 2
  | .spanColumnTo => some 3
  | _ => none

/-- Given as much fuel as it costs, the function returns the word and only uses up fuel. -/
def Returns (body : Body) (args : List UInt32) (cost : Nat) (m : Memory) (w : UInt32) : Prop :=
  ∀ store : Store, store.memory = m → cost ≤ store.fuel →
    ∃ fuel, body args store = (some w, { store with fuel }) ∧ store.fuel ≤ fuel + cost

/-- The functions that take results apart load words of the records, each at this cost. -/
structure Loads (functions : Entry → Body) (cost : Nat) : Prop where
  field : ∀ {e k m h w}, field? e = some k → Word m (h.toNat + 4 * k) w →
    Returns (functions e) [h] cost m w
  ok : ∀ {m h tag w}, tag ≠ 0 → Record m h [tag, w] →
    Returns (functions .resultOk) [h] cost m w
  error : ∀ {m h w}, Record m h [0, w] → Returns (functions .resultError) [h] cost m w
  entry : ∀ {m h} {handles : List UInt32} {k : Nat}, handles.length < 0x80000000 →
    Record m h (UInt32.ofNat handles.length :: handles) → k < 0x80000000 →
    Returns (functions .spansGet) [h, UInt32.ofNat k] cost m (handles.getD k 0)

end Layout

end SplitEditor
