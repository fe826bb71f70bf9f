import SplitEditor.Highlight.Outline.Scanner
import SplitEditor.Highlight.Script.Scanner

/-! The two languages of the editor: scripts in the source buffer, module outlines in the
output buffer. -/

namespace SplitEditor

inductive Language where
  | asl
  | wast
  deriving Repr, DecidableEq

/-- The pairs and markers an editor needs to balance brackets and to comment lines out. -/
structure LanguageConfiguration where
  brackets : List (String × String)
  lineComment : String
  blockComment : String × String
  deriving Repr, DecidableEq

namespace Language

def id : Language → String
  | asl => "asl"
  | wast => "wast"

def ofId? : String → Option Language
  | "asl" => some asl
  | "wast" => some wast
  | _ => none

/-- The tokens by the grammar of the language. They are those of its scan (`Language.scan_eq`). -/
def tokens (language : Language) (source : String) : List Token :=
  match language with
  | asl => Script.grammar.tokens source.toList
  | wast => Outline.grammar.tokens source.toList

def scan (language : Language) (source : String) : Option (Except BadSlice (List Patch)) :=
  match language with
  | asl => Script.scan source.toList
  | wast => Outline.scan source.toList

def configuration (_ : Language) : LanguageConfiguration where
  brackets := [("(", ")"), ("\x7b", "\x7d"), ("[", "]")]
  lineComment := "//"
  blockComment := ("/*", "*/")

end Language

end SplitEditor
