import SplitEditor.Highlight.Outline
import SplitEditor.Highlight.Scanner

/-! The scanner of module outlines. -/

namespace SplitEditor.Outline

open Utf8 Pattern Scan

inductive Frame where
  | root
  | comment
  | string
  deriving Repr, DecidableEq

def inIdentifier (text : List Char) (start : Nat) (c : Char) : Except BadSlice Bool := do
  if c = '/' then
    return match (← dropBytes (start + 1) text).head? with
      | some '/' | some '*' => false
      | _ => true
  else return start = 0 || isWord c || c == '$' || c == '.'

def identifierEnd (text : List Char) (length : Nat) : List (Nat × Char) → Except BadSlice Nat
  | [] => .ok length
  | (start, c) :: others => do
    if ← inIdentifier text start c then identifierEnd text (start + c.utf8Size) others
    else return length

def identifierBytes (text : List Char) : Except BadSlice Nat :=
  identifierEnd text 0 (charIndices 0 text)

def scanRoot (stack : List Frame) : Scan (List Frame) := do
  let text ← rest
  let some c ← peek | return stack
  if isLetter c || c == '_' || c == '$' then
    let length ← identifierBytes text
    let word := String.ofList (← takeBytes length text)
    emit (wordKind word) length
    return stack
  if isDigit c then
    emit .number (prefixLength isDigit text)
    return stack
  if c = '"' then
    emit .stringQuote 1
    return .string :: stack
  if let some scope := bracketScope? c then
    emitScoped .bracket scope 1
    return stack
  if let ';' :: ';' :: _ := text then
    emit .comment (lineLength text)
    return stack
  match ← layout? with
  | some opened => return if opened then .comment :: stack else stack
  | none =>
    emitChar .text
    return stack

def scanStep (stack : List Frame) : Scan (List Frame) := do
  match stack.head?.getD .root with
  | .root => scanRoot stack
  | .comment =>
    match ← commentBody with
    | 1 => return .comment :: stack
    | -1 => return stack.tail
    | _ => return stack
  | .string => return if ← stringBody then stack.tail else stack

def scan (source : List Char) : Option (Except BadSlice (List Patch)) :=
  tokenize scanStep .root source

end SplitEditor.Outline
