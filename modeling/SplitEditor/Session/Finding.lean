import SplitEditor.Editor.Json

/-! What a session can be asked about a position of its source, and what it can find there. -/

namespace SplitEditor

inductive Query where
  | hover
  | definition
  | references
  | rename (name : String)
  | highlights
  deriving Repr, DecidableEq

inductive Finding where
  | hover (contents : HoverContents)
  | definition (location : Location)
  | references (locations : List Location)
  | rename (edit : WorkspaceEdit)
  | highlights (highlights : List DocumentHighlight)
  deriving Repr, DecidableEq

def Finding.toJson : Finding → Json
  | .hover contents => contents.toJson
  | .definition location => location.toJson
  | .references locations => .array (locations.map (·.toJson))
  | .rename edit => edit.toJson
  | .highlights ranges => .array (ranges.map (·.toJson))

end SplitEditor
