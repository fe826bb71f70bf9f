import SplitEditor.Analysis.Value
import SplitEditor.Editor.Value
import SplitEditor.Text.Utf8

/-! Columns counted in characters and columns counted in bytes. Past the end of a line each
column is one character and one byte, and on a line that does not exist so is every column. -/

namespace SplitEditor

structure SourceLines where
  lines : List (List Char)
  deriving Repr, DecidableEq

def splitLines (text : List Char) : List (List Char) :=
  text.foldr (fun c lines => if c = '\n' then [] :: lines else lines.modifyHead (c :: ·)) [[]]

def charsWithin : List Char → Nat → Nat
  | [], _ => 0
  | c :: cs, bytes =>
    if c.utf8Size ≤ bytes then charsWithin cs (bytes - c.utf8Size) + 1 else 0

def saturate (n : Nat) : UInt32 := UInt32.ofNat (min n 0xFFFFFFFF)

namespace SourceLines

def ofSource (source : String) : SourceLines := ⟨splitLines source.toList⟩

def line? (l : SourceLines) (line : UInt32) : Option (List Char) :=
  if line = 0 then none else l.lines[line.toNat - 1]?

def byteColumn (l : SourceLines) (line column : UInt32) : UInt32 :=
  match l.line? line with
  | none => column
  | some text =>
    let wanted := column.toNat - 1
    let before := text.take wanted
    saturate (Utf8.byteLength before + (wanted - before.length) + 1)

/-- A byte inside a character belongs to that character's column. -/
def charColumn (l : SourceLines) (line column : UInt32) : UInt32 :=
  match l.line? line with
  | none => column
  | some text =>
    let offset := column.toNat - 1
    if Utf8.byteLength text ≤ offset then
      saturate (text.length + (offset - Utf8.byteLength text) + 1)
    else saturate (charsWithin text offset + 1)

def toRange (l : SourceLines) (span : Span) : Range where
  startLine := span.lineFrom
  startColumn := l.charColumn span.lineFrom span.columnFrom
  endLine := span.lineTo
  endColumn := l.charColumn span.lineTo span.columnTo

end SourceLines

end SplitEditor
