import SplitEditor.Editor.Value
import SplitEditor.Text.Json

/-! How the values shown in an editor are written as JSON. -/

namespace SplitEditor

def Range.toJson (r : Range) : Json :=
  .object [("startLine", .number r.startLine.toNat), ("startColumn", .number r.startColumn.toNat),
    ("endLine", .number r.endLine.toNat), ("endColumn", .number r.endColumn.toNat)]

def Marker.toJson (m : Marker) : Json :=
  .object [("range", m.range.toJson), ("severity", .string m.severity.name),
    ("message", .string m.message)]

def HoverContents.toJson (h : HoverContents) : Json :=
  .object [("range", h.range.toJson), ("contents", .array (h.contents.map .string))]

def Location.toJson (l : Location) : Json :=
  .object [("uri", .string l.uri), ("range", l.range.toJson)]

def TextEdit.toJson (e : TextEdit) : Json :=
  .object [("range", e.range.toJson), ("text", .string e.text)]

def WorkspaceEdit.toJson (e : WorkspaceEdit) : Json :=
  .object [("resource", .string e.resource), ("edits", .array (e.edits.map (·.toJson)))]

def DocumentHighlight.toJson (h : DocumentHighlight) : Json :=
  .object [("range", h.range.toJson), ("kind", .string h.kind.name)]

end SplitEditor
