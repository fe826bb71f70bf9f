/-! Snippets offered while typing a script. Insert texts mark the cursor's stops: `$1` and
onwards in turn, `$0` at the end. -/

namespace SplitEditor

inductive CompletionKind where
  | keyword
  | snippet
  deriving Repr, DecidableEq

def CompletionKind.name : CompletionKind → String
  | keyword => "keyword"
  | snippet => "snippet"

structure CompletionItem where
  label : String
  kind : CompletionKind := .keyword
  insertText : String
  documentation : Option String := none
  deriving Repr, DecidableEq

namespace CompletionItem

def all : List CompletionItem := [
  { label := "state", insertText := "state(\"$\x7b1:game.exe\x7d\") \x7b\n    $0\n\x7d" },
  { label := "fn ",
    insertText := "fn $\x7b1:name\x7d($\x7b2:params\x7d) $\x7b3:-> \x7d$\x7b4:type\x7d \x7b\n    $0\n\x7d" },
  { label := "start", insertText := "start \x7b\n    $\x7b0:false\x7d\n\x7d" },
  { label := "split", insertText := "split \x7b\n    $\x7b0:false\x7d\n\x7d" },
  { label := "reset", insertText := "reset \x7b\n    $\x7b0:false\x7d\n\x7d" },
  { label := "isLoading", insertText := "isLoading \x7b\n    $\x7b0:false\x7d\n\x7d" },
  { label := "gameTime", insertText := "gameTime \x7b\n    $\x7b0:0.0\x7d\n\x7d" },
  { label := "Pointer Path", kind := .snippet,
    insertText := "$\x7b1:name\x7d: $\x7b2:type\x7d = \"$\x7b3:module\x7d\", $\x7b4:0x0\x7d;",
    documentation := some "Pointer Path" },
  { label := "current", insertText := "current.$\x7b0:field\x7d" },
  { label := "old", insertText := "old.$\x7b0:field\x7d" },
  { label := "for",
    insertText := "for $\x7b1:index\x7d in $\x7b2:from\x7d..$\x7b3:to\x7d \x7b\n    $\x7b0\x7d\n\x7d;" },
  { label := "while", insertText := "while $\x7b1:condition\x7d \x7b\n    $\x7b0\x7d\n\x7d;" }]

def matchText (item : CompletionItem) : List Char :=
  (item.label.toList.reverse.dropWhile (· == ' ')).reverse

def matching (typed : String) : List CompletionItem :=
  all.filter fun item => typed.toList.isPrefixOf item.matchText

end CompletionItem

end SplitEditor
