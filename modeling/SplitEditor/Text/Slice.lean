import SplitEditor.Text.Utf8

/-! Slices of a text between byte offsets. An offset has to stand between two characters of the
text or at one of its ends, and it is a fault of whoever asks for the slice if it does not. -/

namespace SplitEditor

inductive BadSlice where
  | beyondEnd
  | insideCharacter
  deriving Repr, DecidableEq

namespace Utf8

def dropBytes : Nat → List Char → Except BadSlice (List Char)
  | 0, text => .ok text
  | _ + 1, [] => .error .beyondEnd
  | n + 1, c :: text =>
    if n + 1 < c.utf8Size then .error .insideCharacter else dropBytes (n + 1 - c.utf8Size) text

def takeBytes : Nat → List Char → Except BadSlice (List Char)
  | 0, _ => .ok []
  | _ + 1, [] => .error .beyondEnd
  | n + 1, c :: text =>
    if n + 1 < c.utf8Size then .error .insideCharacter
    else (takeBytes (n + 1 - c.utf8Size) text).map (c :: ·)

def slice (text : List Char) (start stop : Nat) : Except BadSlice (List Char) :=
  takeBytes stop text >>= dropBytes start

def charIndices (start : Nat) : List Char → List (Nat × Char)
  | [] => []
  | c :: text => (start, c) :: charIndices (start + c.utf8Size) text

/-- How many bytes there are in front of the first character that is not in the class. -/
def prefixLength (p : Char → Bool) (text : List Char) : Nat :=
  match (charIndices 0 text).find? fun (_, c) => !p c with
  | some (start, _) => start
  | none => byteLength text

end Utf8

end SplitEditor
