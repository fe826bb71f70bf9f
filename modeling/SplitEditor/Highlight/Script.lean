import SplitEditor.Highlight.Grammar

/-! The grammar of auto splitter scripts. Rules are tried in order: words, white space and
comments, brackets, operators, numbers, delimiters, strings, character literals. Words that
follow `fn` are function names until something that is neither a word nor layout comes. -/

namespace SplitEditor.Script

open Pattern

def keywords : List String := ["if", "else", "for", "match", "while", "loop", "let", "in", "as"]

def booleans : List String := ["true", "false"]

def actions : List String := ["state", "start", "split", "reset", "isLoading", "gameTime"]

def typeKeywords : List String :=
  ["bool", "unit", "u8", "u16", "u32", "u64", "i8", "i16", "i32", "i64", "f32", "f64",
    "\x7bint\x7d", "\x7bfloat\x7d", "\x7bnumber\x7d", "\x7bbits\x7d"]

def operators : List String :=
  ["=", ">", "<", "!", "~", "?", "==", "<=", ">=", "!=", "&&", "||", "++", "--", "+", "-", "*",
    "/", "&", "|", "^", "%", "<<", ">>", "+=", "-=", "*=", "/=", "&=", "|=", "^=", "%=", "<<=",
    ">>=", "..", "..=", "=>", "->"]

def isSymbol (c : Char) : Bool :=
  c ∈ ['=', '>', '<', '!', '~', '?', ':', '&', '|', '.', '+', '-', '*', '/', '^', '%']

def bracketScope? (c : Char) : Option String :=
  if c = '{' ∨ c = '}' then some "delimiter.curly"
  else if c = '[' ∨ c = ']' then some "delimiter.square"
  else if c = '(' ∨ c = ')' then some "delimiter.parenthesis"
  else none

inductive Mode where
  | plain
  | named
  deriving Repr, DecidableEq

def wordKind (word : String) : TokenKind :=
  if word ∈ booleans then .constant
  else if word = "fn" then .keyword
  else if word ∈ typeKeywords then .storageType
  else if word ∈ actions then .functionName
  else if word ∈ keywords then .keyword
  else .identifier

def escapedLiteral (cs : List Char) : Step Mode :=
  match escapeLength cs with
  | some n =>
    if (cs.drop n).head? = some '\'' then
      ⟨.of .string 0, [.of .stringEscape (n - 1), .of .string 0], .code .plain⟩
    else .one .stringInvalid 0 (.code .plain)
  | none => .one .stringInvalid 0 (.code .plain)

def charLiteral (cs : List Char) : Step Mode :=
  match cs with
  | c :: '\'' :: _ =>
    if c ≠ '\\' ∧ c ≠ '\'' then .one .string 2 (.code .plain) else escapedLiteral cs
  | _ => escapedLiteral cs

/-- What is neither a word nor layout. -/
def other (c : Char) (cs : List Char) : Step Mode :=
  match bracketScope? c with
  | some scope => ⟨⟨.bracket, scope, 0⟩, [], .code .plain⟩
  | none =>
    if isSymbol c then
      let more := run isSymbol cs
      let kind := if String.ofList (c :: cs.take more) ∈ operators then .operator else .text
      .one kind more (.code .plain)
    else
      match floatLength (c :: cs), hexLength (c :: cs) with
      | some n, _ => .one .numberFloat (n - 1) (.code .plain)
      | none, some n => .one .numberHex (n - 1) (.code .plain)
      | none, none =>
        if isDigit c then .one .number (run isDigit cs) (.code .plain)
        else if c = ';' ∨ c = ',' ∨ c = '.' then .one .delimiter 0 (.code .plain)
        else if c = '"' then
          match unterminatedLength cs with
          | some n => .one .stringInvalid (n - 1) (.code .plain)
          | none => .one .stringQuote 0 (.string .plain)
        else if c = '\'' then charLiteral cs
        else .one .text 0 (.code .plain)

def plain (c : Char) (cs : List Char) : Step Mode :=
  if isLower c || c == '_' || c == '$' then
    let more := run (fun d => isWord d || d == '$') cs
    let word := String.ofList (c :: cs.take more)
    .one (wordKind word) more (.code (if word = "fn" then .named else .plain))
  else (Step.layout? .plain c cs).getD (other c cs)

def named (c : Char) (cs : List Char) : Step Mode :=
  match Step.layout? .named c cs with
  | some step => step
  | none =>
    if isLetter c || c == '_' then .one .functionName (run isWord cs) (.code .named)
    else plain c cs

def grammar : Grammar Mode where
  start := .plain
  code
    | .plain, c, cs => plain c cs
    | .named, c, cs => named c cs

end SplitEditor.Script
