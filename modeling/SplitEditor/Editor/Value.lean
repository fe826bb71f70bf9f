/-! What an editor is shown. Lines and columns count from one, columns count characters. -/

namespace SplitEditor

structure Range where
  startLine : UInt32
  startColumn : UInt32
  endLine : UInt32
  endColumn : UInt32
  deriving Repr, DecidableEq

def Range.display (r : Range) : String :=
  s!"{r.startLine}:{r.startColumn}-{r.endLine}:{r.endColumn}"

inductive Severity where
  | hint
  | info
  | warning
  | error
  deriving Repr, DecidableEq

namespace Severity

def name : Severity → String
  | hint => "hint"
  | info => "info"
  | warning => "warning"
  | error => "error"

def ofName? : String → Option Severity
  | "hint" => some hint
  | "info" => some info
  | "warning" => some warning
  | "error" => some error
  | _ => none

end Severity

structure Marker where
  range : Range
  severity : Severity
  message : String
  deriving Repr, DecidableEq

inductive BuildStatus where
  | ready
  | failed (message : String)
  | internalError
  deriving Repr, DecidableEq

namespace BuildStatus

def label : BuildStatus → String
  | ready => "Download"
  | failed message => s!"Error: {message}"
  | internalError => "Internal Compiler Error"

def isSuccess : BuildStatus → Bool
  | ready => true
  | _ => false

def background (status : BuildStatus) : String :=
  if status.isSuccess then "hsl(120, 100%, 20%)" else "hsl(0, 100%, 20%)"

end BuildStatus

structure HoverContents where
  range : Range
  contents : List String
  deriving Repr, DecidableEq

structure Location where
  uri : String
  range : Range
  deriving Repr, DecidableEq

structure TextEdit where
  range : Range
  text : String
  deriving Repr, DecidableEq

structure WorkspaceEdit where
  resource : String
  edits : List TextEdit
  deriving Repr, DecidableEq

inductive HighlightKind where
  | text
  | read
  | write
  deriving Repr, DecidableEq

def HighlightKind.name : HighlightKind → String
  | text => "text"
  | read => "read"
  | write => "write"

structure DocumentHighlight where
  range : Range
  kind : HighlightKind
  deriving Repr, DecidableEq

end SplitEditor
