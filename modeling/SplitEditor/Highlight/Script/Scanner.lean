import SplitEditor.Highlight.Scanner
import SplitEditor.Highlight.Script

/-! The scanner of auto splitter scripts. -/

namespace SplitEditor.Script

open Utf8 Pattern Scan

inductive Frame where
  | root
  | comment
  | string
  | functionName
  deriving Repr, DecidableEq

def unsigned : List Char → List Char
  | '-' :: digits | '+' :: digits => digits
  | digits => digits

/-- Digits, a point, digits and perhaps an exponent. -/
def floatBytes (text : List Char) : Except BadSlice (Option Nat) := do
  let whole := prefixLength isDigit text
  let '.' :: behind := ← dropBytes whole text | return none
  let fraction := prefixLength isDigit behind
  if fraction = 0 then return none
  let length := whole + 1 + fraction
  match ← dropBytes length text with
  | e :: exponent =>
    if e = 'e' ∨ e = 'E' then
      let signed := unsigned exponent
      let digits := prefixLength isDigit signed
      if 0 < digits then
        return some (length + (1 + (byteLength exponent - byteLength signed) + digits))
    return some length
  | [] => return some length

def hexBytes (text : List Char) : Option Nat :=
  match text with
  | '0' :: 'x' :: digits | '0' :: 'X' :: digits =>
    let length := prefixLength isHexDigit digits
    if 0 < length then some (2 + length) else none
  | _ => none

def unterminatedBytes (text : List Char) : Except BadSlice (Option Nat) := do
  let line ← takeBytes (lineLength text) text
  return if stringCloses (line.drop 1) then none else some (byteLength line)

/-- An escape in single quotes; a quote that opens no literal is invalid. -/
def scanEscapedLiteral (body : List Char) : Scan Unit := do
  match ← escapeLength body with
  | some length =>
    if (← dropBytes length body).head? = some '\'' then
      emit .string 1
      emit .stringEscape length
      emit .string 1
    else emit .stringInvalid 1
  | none => emit .stringInvalid 1

/-- A character in single quotes, alone or escaped. -/
def scanCharLiteral : Scan Unit := do
  let body ← dropBytes 1 (← rest)
  match body with
  | c :: _ =>
    if c ≠ '\\' ∧ c ≠ '\'' then
      if (← dropBytes c.utf8Size body).head? = some '\'' then emit .string (2 + c.utf8Size)
      else scanEscapedLiteral body
    else scanEscapedLiteral body
  | [] => scanEscapedLiteral body

/-- What is neither a word nor layout. -/
def scanOther (c : Char) (text : List Char) (stack : List Frame) : Scan (List Frame) := do
  if let some scope := bracketScope? c then
    emitScoped .bracket scope 1
    return stack
  if isSymbol c then
    let length := prefixLength isSymbol text
    let symbols := String.ofList (← takeBytes length text)
    emit (if symbols ∈ operators then .operator else .text) length
    return stack
  if let some length := ← floatBytes text then
    emit .numberFloat length
    return stack
  if let some length := hexBytes text then
    emit .numberHex length
    return stack
  if isDigit c then
    emit .number (prefixLength isDigit text)
    return stack
  if c = ';' ∨ c = ',' ∨ c = '.' then
    emit .delimiter 1
    return stack
  if c = '"' then
    match ← unterminatedBytes text with
    | some length =>
      emit .stringInvalid length
      return stack
    | none =>
      emit .stringQuote 1
      return .string :: stack
  if c = '\'' then
    scanCharLiteral
    return stack
  emitChar .text
  return stack

def scanRoot (stack : List Frame) : Scan (List Frame) := do
  let text ← rest
  let some c ← peek | return stack
  if isLower c || c == '_' || c == '$' then
    let length := prefixLength (fun d => isWord d || d == '$') text
    let word := String.ofList (← takeBytes length text)
    emit (wordKind word) length
    return if word = "fn" then .functionName :: stack else stack
  match ← layout? with
  | some opened => return if opened then .comment :: stack else stack
  | none => scanOther c text stack

/-- Whatever is neither layout nor a name ends the waiting and takes nothing. -/
def scanName (stack : List Frame) : Scan (List Frame) := do
  match ← layout? with
  | some opened => return if opened then .comment :: stack else stack
  | none =>
    let text ← rest
    if text.head?.any fun c => isLetter c || c == '_' then
      emit .functionName (prefixLength isWord text)
      return stack
    else return stack.tail

def scanStep (stack : List Frame) : Scan (List Frame) := do
  match stack.head?.getD .root with
  | .root => scanRoot stack
  | .comment =>
    match ← commentBody with
    | 1 => return .comment :: stack
    | -1 => return stack.tail
    | _ => return stack
  | .string => return if ← stringBody then stack.tail else stack
  | .functionName => scanName stack

def scan (source : List Char) : Option (Except BadSlice (List Patch)) :=
  tokenize scanStep .root source

end SplitEditor.Script
