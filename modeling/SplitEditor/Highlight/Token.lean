import SplitEditor.Text.Utf8

/-! What a highlighter produces. A grammar cuts the source into lexemes; neighbours of one kind
and scope are joined, and the joined pieces, placed at their byte offsets, are the tokens. -/

namespace SplitEditor

inductive TokenKind where
  | keyword
  | constant
  | storageType
  | type
  | typeIdentifier
  | functionName
  | identifier
  | operator
  | delimiter
  | bracket
  | number
  | numberFloat
  | numberHex
  | string
  | stringQuote
  | stringEscape
  | stringEscapeInvalid
  | stringInvalid
  | comment
  | white
  | text
  deriving Repr, DecidableEq

namespace TokenKind

def name : TokenKind → String
  | keyword => "Keyword"
  | constant => "Constant"
  | storageType => "StorageType"
  | type => "Type"
  | typeIdentifier => "TypeIdentifier"
  | functionName => "FunctionName"
  | identifier => "Identifier"
  | operator => "Operator"
  | delimiter => "Delimiter"
  | bracket => "Bracket"
  | number => "Number"
  | numberFloat => "NumberFloat"
  | numberHex => "NumberHex"
  | string => "String"
  | stringQuote => "StringQuote"
  | stringEscape => "StringEscape"
  | stringEscapeInvalid => "StringEscapeInvalid"
  | stringInvalid => "StringInvalid"
  | comment => "Comment"
  | white => "White"
  | text => "Text"

/-- The dotted name under which a theme looks the kind up. -/
def scope : TokenKind → String
  | keyword => "keyword"
  | constant => "constant"
  | storageType => "storage.type"
  | type => "type"
  | typeIdentifier => "type.identifier"
  | functionName => "entity.name.function"
  | identifier => "identifier"
  | operator => "operator"
  | delimiter => "delimiter"
  | bracket => "delimiter.bracket"
  | number => "number"
  | numberFloat => "number.float"
  | numberHex => "number.hex"
  | string => "string"
  | stringQuote => "string.quote"
  | stringEscape => "string.escape"
  | stringEscapeInvalid => "string.escape.invalid"
  | stringInvalid => "string.invalid"
  | comment => "comment"
  | white => "white"
  | text => ""

end TokenKind

structure Lexeme where
  kind : TokenKind
  scope : String
  text : List Char
  deriving Repr, DecidableEq

structure Token where
  kind : TokenKind
  scope : String
  text : List Char
  start : Nat
  deriving Repr, DecidableEq

namespace Token

def stop (t : Token) : Nat := t.start + Utf8.byteLength t.text

end Token

namespace Lexeme

def join (x : Lexeme) : List Lexeme → List Lexeme
  | [] => [x]
  | y :: rest =>
    if x.kind = y.kind ∧ x.scope = y.scope then { x with text := x.text ++ y.text } :: rest
    else x :: y :: rest

def joined (xs : List Lexeme) : List Lexeme := xs.foldr join []

def place (start : Nat) : List Lexeme → List Token
  | [] => []
  | x :: rest => ⟨x.kind, x.scope, x.text, start⟩ :: place (start + Utf8.byteLength x.text) rest

end Lexeme

end SplitEditor
