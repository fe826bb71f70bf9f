import SplitEditor.Analysis.Error
import SplitEditor.Wasm.Part
import SplitEditor.Wasm.Type

/-! The text shown for a compiled module: a line for each part that tells something, inside the
brackets of a module. -/

namespace SplitEditor.Wasm

inductive ListingLine where
  | summary (label : String) (count : Nat)
  | imported (entry : Import)
  | memory (limits : Limits)
  | exported (entry : Export)
  | start (function : Nat)
  deriving Repr, DecidableEq

def ExternKind.keyword : ExternKind → String
  | func => "func"
  | table => "table"
  | memory => "memory"
  | global => "global"
  | tag => "tag"

namespace ListingLine

def number (n : Nat) : List Char := Nat.toDigits 10 n

def quoted (name : List Char) : List Char := '"' :: (name ++ ['"'])

def importText : ImportType → List Char
  | .func type => "(func (type ".toList ++ number type ++ "))".toList
  | .table _ => "(table)".toList
  | .memory type => "(memory ".toList ++ number type.limits.least ++ [')']
  | .global _ => "(global)".toList
  | .tag _ => "(tag)".toList

def text : ListingLine → List Char
  | summary label count => ";; ".toList ++ label.toList ++ ": ".toList ++ number count
  | imported entry =>
    "(import ".toList ++ quoted entry.module ++ ' ' :: quoted entry.name ++
      ' ' :: importText entry.type ++ [')']
  | memory limits =>
    "(memory ".toList ++ number limits.least ++
      (match limits.most with
      | some most => ' ' :: number most
      | none => []) ++ [')']
  | exported entry =>
    "(export ".toList ++ quoted entry.name ++ " (".toList ++ entry.kind.keyword.toList ++
      ' ' :: number entry.index ++ "))".toList
  | start function => "(start ".toList ++ number function ++ [')']

/-- The lines for one part. The entries that are shown one by one have to be well-formed and
fill their section. -/
def ofPart? : Part → Option (List ListingLine)
  | .entries .types count _ => some [summary "types" count]
  | .entries .imports count body =>
    (Reader.all? (Reader.many Reader.importEntry count) body).map (·.map imported)
  | .entries .functions count _ => some [summary "functions" count]
  | .entries .memories count body =>
    (Reader.all? (Reader.many Reader.memoryType count) body).map (·.map (memory ·.limits))
  | .entries .globals count _ => some [summary "globals" count]
  | .entries .exports count body =>
    (Reader.all? (Reader.many Reader.exportEntry count) body).map (·.map exported)
  | .start function => some [start function]
  | .entries .data count _ => some [summary "data segments" count]
  | _ => some []

end ListingLine

namespace Listing

def text (lines : List ListingLine) : List Char :=
  match lines with
  | [] => "(module)".toList
  | lines =>
    "(module\n".toList ++ lines.flatMap (fun line => "  ".toList ++ line.text ++ ['\n']) ++ [')']

def lines? (bytes : List UInt8) : Option (List ListingLine) := do
  return (← (← Part.ofBytes? bytes).mapM ListingLine.ofPart?).flatten

def render (bytes : List UInt8) : Except AnalysisError String :=
  match lines? bytes with
  | some lines => .ok (String.ofList (text lines))
  | none => .error .malformedBinary

end Listing

end SplitEditor.Wasm
