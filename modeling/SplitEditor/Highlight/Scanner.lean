import SplitEditor.Highlight.Pattern
import SplitEditor.Highlight.Token
import SplitEditor.Text.Slice

/-! How a source is highlighted: a cursor goes over its bytes, and every rule says for how many of
them it holds. A rule that holds for none leaves the cursor where it is, and one that goes wrong
leaves it inside of a character or beyond the end, where the next slice fails. -/

namespace SplitEditor

open Utf8

/-- A coloured stretch of a source, between two byte offsets. -/
structure Patch where
  kind : TokenKind
  scope : String
  start : Nat
  stop : Nat
  deriving Repr, DecidableEq

def Patch.text (source : List Char) (p : Patch) : Except BadSlice (List Char) :=
  slice source p.start p.stop

structure Scanner where
  source : List Char
  position : Nat
  patches : List Patch

abbrev Scan := StateT Scanner (Except BadSlice)

namespace Scanner

def new (source : List Char) : Scanner := ⟨source, 0, []⟩

def isDone (s : Scanner) : Bool := byteLength s.source ≤ s.position

def left (s : Scanner) : Nat := byteLength s.source - s.position

/-- Colours the next bytes, if there are any to be coloured. A patch that ends where they begin
grows if it has their colour. -/
def paint (s : Scanner) (kind : TokenKind) (scope : String) (length : Nat) : Scanner :=
  if length = 0 then s
  else
    let stop := s.position + length
    match s.patches with
    | [] => { s with position := stop, patches := [⟨kind, scope, s.position, stop⟩] }
    | last :: earlier =>
      if last.stop = s.position ∧ last.kind = kind ∧ last.scope = scope then
        { s with position := stop, patches := { last with stop } :: earlier }
      else
        { s with
          position := stop
          patches := ⟨kind, scope, s.position, stop⟩ :: last :: earlier }

end Scanner

namespace Scan

def rest : Scan (List Char) := do
  let s ← get
  dropBytes s.position s.source

def peek : Scan (Option Char) := return (← rest).head?

def emitScoped (kind : TokenKind) (scope : String) (length : Nat) : Scan Unit :=
  modify (·.paint kind scope length)

def emit (kind : TokenKind) (length : Nat) : Scan Unit := emitScoped kind kind.scope length

def emitChar (kind : TokenKind) : Scan Unit := do
  emit kind ((← peek).elim 1 Char.utf8Size)

/-- The bytes of an escape at the head of a text, if one is there. -/
def escapeLength (text : List Char) : Except BadSlice (Option Nat) := do
  let '\\' :: rest := text | return none
  let some first := rest.head? | return none
  if first ∈ ['a', 'b', 'f', 'n', 'r', 't', 'v', '\\', '"', '\''] then return some 2
  else if first = 'x' then
    let digits := min (prefixLength Pattern.isHexDigit (← dropBytes 1 rest)) 4
    return if 1 ≤ digits then some (2 + digits) else none
  else if first = 'u' ∨ first = 'U' then
    let wanted := if first = 'u' then 4 else 8
    let digits := prefixLength Pattern.isHexDigit (← dropBytes 1 rest)
    return if wanted ≤ digits then some (2 + wanted) else none
  else return none

def lineLength (text : List Char) : Nat := prefixLength (· != '\n') text

/-- A piece of a string's body; whether it was the closing quote. -/
def stringBody : Scan Bool := do
  let text ← rest
  match text with
  | '"' :: _ =>
    emit .stringQuote 1
    return true
  | '\\' :: _ =>
    match ← escapeLength text with
    | some length => emit .stringEscape length
    | none => emit .stringEscapeInvalid (1 + (← dropBytes 1 text).head?.elim 0 Char.utf8Size)
    return false
  | _ =>
    emit .string (prefixLength (fun c => c != '"' && c != '\\') text)
    return false

/-- White space, a line comment, or the opening of a block comment; whether it was the latter. -/
def layout? : Scan (Option Bool) := do
  let text ← rest
  if text.head?.any Pattern.isBlank then
    emit .white (prefixLength Pattern.isBlank text)
    return some false
  else
    match text with
    | '/' :: '*' :: _ =>
      emit .comment 2
      return some true
    | '/' :: '/' :: _ =>
      emit .comment (lineLength text)
      return some false
    | _ => return none

/-- A piece of a block comment's body, and by how much deeper it leads into nested ones. -/
def commentBody : Scan Int := do
  let text ← rest
  match text with
  | '/' :: '*' :: _ =>
    emit .comment 2
    return 1
  | '*' :: '/' :: _ =>
    emit .comment 2
    return -1
  | _ =>
    emit .comment (max (prefixLength (fun c => c != '/' && c != '*') text) 1)
    return 0

variable {φ : Type}

/-- Steps until the end of the source. The stack tells what the cursor is in, innermost first. A
step that takes nothing has to leave something, or there is no telling whether the end is ever
reached, and nothing comes of it. -/
def loop (step : List φ → Scan (List φ)) (stack : List φ) (s : Scanner) :
    Option (Except BadSlice Scanner) :=
  if s.isDone then some (.ok s)
  else
    match (step stack).run s with
    | .error fault => some (.error fault)
    | .ok (stack', s') =>
      if _h : s'.left < s.left ∨ s'.left = s.left ∧ stack'.length < stack.length then
        loop step stack' s'
      else none
termination_by (s.left, stack.length)
decreasing_by exact Prod.lex_def.2 _h

/-- The patches of a source, if the steps come to its end. -/
def tokenize (step : List φ → Scan (List φ)) (start : φ) (source : List Char) :
    Option (Except BadSlice (List Patch)) :=
  (loop step [start] (.new source)).map (·.map (·.patches.reverse))

end Scan

end SplitEditor
