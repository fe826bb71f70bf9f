import SplitEditor.Highlight.Pattern

/-! Colours for token scopes. A rule covers its own scope and everything below it, dot by dot;
of several rules the most specific one decides. -/

namespace SplitEditor

structure Color where
  r : UInt8
  g : UInt8
  b : UInt8
  deriving Repr, DecidableEq

namespace Color

def hexValue? (c : Char) : Option Nat :=
  if Pattern.isDigit c then some (c.toNat - '0'.toNat)
  else if 'a' ≤ c ∧ c ≤ 'f' then some (c.toNat - 'a'.toNat + 10)
  else if 'A' ≤ c ∧ c ≤ 'F' then some (c.toNat - 'A'.toNat + 10)
  else none

/-- Two characters as a number. In place of the first digit a plus sign may stand. -/
def component? (high low : Char) : Option UInt8 := do
  let units ← hexValue? low
  if high = '+' then return UInt8.ofNat units
  let sixteens ← hexValue? high
  return UInt8.ofNat (sixteens * 16 + units)

/-- Six hexadecimal digits, after any number of leading number signs. -/
def ofHex? (text : String) : Option Color :=
  match text.toList.dropWhile (· == '#') with
  | [r1, r2, g1, g2, b1, b2] => do
    return ⟨← component? r1 r2, ← component? g1 g2, ← component? b1 b2⟩
  | _ => none

def upperDigit (n : Nat) : Char :=
  if n < 10 then Char.ofNat ('0'.toNat + n) else Char.ofNat ('A'.toNat + (n - 10))

def componentDigits (v : UInt8) : List Char :=
  [upperDigit (v.toNat / 16), upperDigit (v.toNat % 16)]

def toHex (c : Color) : String :=
  String.ofList (componentDigits c.r ++ componentDigits c.g ++ componentDigits c.b)

end Color

inductive FontStyle where
  | normal
  | italic
  deriving Repr, DecidableEq

structure TokenRule where
  token : String
  foreground : Color
  fontStyle : FontStyle := .normal
  deriving Repr, DecidableEq

/-- `string` covers `string` and `string.quote`, but not `strings`. -/
def TokenRule.covers (rule : TokenRule) (scope : String) : Bool :=
  rule.token.toList.isPrefixOf scope.toList &&
    match scope.toList.drop rule.token.length with
    | [] => true
    | c :: _ => c == '.'

/-- The colours of an editor, as `#RRGGBB` or `#RRGGBBAA` where they are not token rules. -/
structure Theme where
  name : String
  base : String
  inherits : Bool
  rules : List TokenRule
  colors : List (String × String)
  deriving Repr, DecidableEq

namespace Theme

/-- The rule with the longest scope among those that cover a scope; of equals the last. -/
def rule? (theme : Theme) (scope : String) : Option TokenRule :=
  (theme.rules.filter (·.covers scope)).foldl (fun best rule =>
    match best with
    | none => some rule
    | some b => if b.token.length ≤ rule.token.length then some rule else some b) none

def color? (theme : Theme) (key : String) : Option String := theme.colors.lookup key

private def pink : Color := ⟨0xF9, 0x26, 0x72⟩
private def yellow : Color := ⟨0xFF, 0xEE, 0x99⟩
private def cyan : Color := ⟨0x66, 0xD9, 0xEF⟩
private def purple : Color := ⟨0xA4, 0x77, 0xF6⟩
private def green : Color := ⟨0xA6, 0xE2, 0x2E⟩

/-- The theme of the script editor. -/
def script : Theme where
  name := "asl"
  base := "vs-dark"
  inherits := true
  rules := [
    { token := "keyword", foreground := pink },
    { token := "operator", foreground := pink },
    { token := "string", foreground := yellow },
    { token := "storage.type", foreground := cyan, fontStyle := .italic },
    { token := "type", foreground := cyan, fontStyle := .italic },
    { token := "number", foreground := purple },
    { token := "constant", foreground := purple },
    { token := "number.float", foreground := purple },
    { token := "number.hex", foreground := purple },
    { token := "entity.name.function", foreground := green },
    { token := "selection", foreground := ⟨0x40, 0x3D, 0x3D⟩ }]
  colors := [
    ("editor.selectionBackground", "#3d3d3d"),
    ("editor.lineHighlightBackground", "#3D3D3D55")]

end Theme

end SplitEditor
