import SplitEditor.Text.Numeral

/-! What an analysis binary answers, read out of its memory. A handle is an opaque pointer into
that memory; zero means that there is no value. -/

namespace SplitEditor

structure Handle where
  word : UInt32
  deriving Repr, DecidableEq

namespace Handle

def none : Handle := ⟨0⟩

def ofInt (raw : Int) : Handle := ⟨UInt32.ofInt raw⟩

def toInt (h : Handle) : Int := h.word.toInt32.toInt

def isNone (h : Handle) : Bool := h.word == 0

def present (h : Handle) : Option Handle := if h.word = 0 then Option.none else some h

def display (h : Handle) : String :=
  String.ofList ('0' :: 'x' :: Numeral.hexDigits 8 h.word.toNat)

end Handle

/-- A stretch of source from one line and column to another. Lines and columns count from one;
columns count bytes. -/
structure Span where
  lineFrom : UInt32
  columnFrom : UInt32
  lineTo : UInt32
  columnTo : UInt32
  deriving Repr, DecidableEq

namespace Span

def isOrdered (s : Span) : Bool :=
  s.lineFrom < s.lineTo || (s.lineFrom == s.lineTo && s.columnFrom ≤ s.columnTo)

def display (s : Span) : String :=
  s!"{s.lineFrom}:{s.columnFrom}-{s.lineTo}:{s.columnTo}"

end Span

structure Diagnostic where
  message : String
  span : Option Span
  deriving Repr, DecidableEq

def Diagnostic.display (d : Diagnostic) : String :=
  match d.span with
  | some span => s!"{d.message} at {span.display}"
  | none => d.message

/-- The type of the symbol at a position, and the stretch of source the symbol covers. -/
structure SymbolType where
  type : String
  span : Span
  deriving Repr, DecidableEq

/-- What compiling a source came to: the bytes of a module, or a fault in the source. -/
inductive Compilation where
  | compiled (module : List UInt8)
  | failed (diagnostic : Diagnostic)
  deriving Repr, DecidableEq

end SplitEditor
