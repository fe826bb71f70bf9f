import SplitEditor.Text.Utf8
import SplitEditor.Yaml.Scalar

/-! The tokens of a YAML stream. Indentation becomes explicit: every block collection is closed
by a token of its own. A mapping's key is recognised only when its colon comes, so the key token
and the start of the mapping are put in where the key began. -/

namespace SplitEditor.Yaml

inductive Style where
  | plain
  | singleQuoted
  | doubleQuoted
  | literal
  | folded
  deriving Repr, DecidableEq

inductive Token where
  | versionDirective (major minor : Nat)
  | tagDirective (handle uri : List Char)
  | documentStart
  | documentEnd
  | blockSequenceStart
  | blockMappingStart
  | blockEnd
  | flowSequenceStart
  | flowSequenceEnd
  | flowMappingStart
  | flowMappingEnd
  | blockEntry
  | flowEntry
  | key
  | value
  | alias (name : List Char)
  | anchor (name : List Char)
  | tag (handle suffix : List Char)
  | scalar (value : List Char) (style : Style)
  deriving Repr, DecidableEq

def Token.isDirective : Token → Bool
  | .versionDirective .. | .tagDirective .. => true
  | _ => false

/-- A place where a key may have begun: the number of tokens before it, and where it was. A
required one must turn out to be a key. -/
structure KeyStart where
  tokens : Nat
  line : Nat
  column : Nat
  index : Nat
  required : Bool
  deriving Repr, DecidableEq

structure Scanner where
  place : Cursor
  tokens : List Token
  indent : Option Nat
  outer : List (Option Nat)
  /-- The pending key of each open flow collection, innermost first. -/
  flowKeys : List (Option KeyStart)
  blockKey : Option KeyStart
  keyAllowed : Bool
  deriving Repr, DecidableEq

namespace Scanner

def ofText (text : List Char) : Scanner := ⟨.ofText text, [], none, [], [], none, true⟩

def inFlow (s : Scanner) : Bool := !s.flowKeys.isEmpty

def emit (s : Scanner) (t : Token) : Scanner := { s with tokens := s.tokens ++ [t] }

def insert (s : Scanner) (before : Nat) (t : Token) : Scanner :=
  { s with tokens := s.tokens.take before ++ t :: s.tokens.drop before }

def skip (s : Scanner) (n : Nat) : Scanner := { s with place := s.place.skip n }

def pendingKey (s : Scanner) : Option KeyStart :=
  match s.flowKeys with
  | [] => s.blockKey
  | k :: _ => k

def setKey (s : Scanner) (k : Option KeyStart) : Scanner :=
  match s.flowKeys with
  | [] => { s with blockKey := k }
  | _ :: rest => { s with flowKeys := k :: rest }

def dropKey (s : Scanner) : Option Scanner :=
  if s.pendingKey.any (·.required) then none else some (s.setKey none)

def saveKey (s : Scanner) : Option Scanner :=
  if s.keyAllowed then do
    let s ← s.dropKey
    return s.setKey (some ⟨s.tokens.length, s.place.line, s.place.column, s.place.index,
      !s.inFlow && s.indent == some s.place.column⟩)
  else some s

def isStale (s : Scanner) (k : KeyStart) : Bool :=
  k.line < s.place.line || k.index + 1024 < s.place.index

/-- Gives up all keys that have become stale. -/
def dropStale (s : Scanner) : Option Scanner := do
  let fresh (k : Option KeyStart) : Option (Option KeyStart) :=
    match k with
    | some k => if s.isStale k then (if k.required then none else some none) else some (some k)
    | none => some none
  let blockKey ← fresh s.blockKey
  let flowKeys ← s.flowKeys.mapM fresh
  return { s with blockKey, flowKeys }

def leastColumn (s : Scanner) : Nat := s.indent.elim 0 (· + 1)

/-- Closes block collections, given outermost last, that begin beyond a column. -/
def closing (column : Option Nat) : Option Nat → List (Option Nat) → List Token →
    Option Nat × List (Option Nat) × List Token
  | none, outer, tokens => (none, outer, tokens)
  | some i, outer, tokens =>
    if column.any (i ≤ ·) then (some i, outer, tokens)
    else
      match outer with
      | [] => (none, [], tokens ++ [.blockEnd])
      | o :: rest => closing column o rest (tokens ++ [.blockEnd])

def unroll (s : Scanner) (column : Option Nat) : Scanner :=
  if s.inFlow then s
  else
    let (indent, outer, tokens) := closing column s.indent s.outer s.tokens
    { s with indent, outer, tokens }

def roll (s : Scanner) (column before : Nat) (t : Token) : Scanner :=
  if s.inFlow || s.indent.any (column ≤ ·) then s
  else { s.insert before t with indent := some column, outer := s.indent :: s.outer }

/-- Moves over blanks, comments and line breaks. -/
def toToken : Nat → Scanner → Scanner
  | 0, s => s
  | fuel + 1, s =>
    let tabs := s.inFlow || !s.keyAllowed
    let place := s.place.skipWhile fun c => c == ' ' || (tabs && c == '\t')
    let place := if place.peek? == some '#' then place.skipWhile (!isBreak ·) else place
    if (place.peek?).any isBreak then
      toToken fuel { s with place := place.skipBreak, keyAllowed := s.keyAllowed || !s.inFlow }
    else { s with place }

def number (c : Cursor) : Option (Nat × Cursor) :=
  let digits := c.rest.takeWhile Char.isDigit
  if digits = [] || 9 < digits.length then none
  else some (digits.foldl (fun n d => n * 10 + (d.toNat - 48)) 0, c.skip digits.length)

def isUriChar (brackets : Bool) (c : Char) : Bool :=
  isNameChar c || ";/?:@&=+$.!~*'()%".toList.contains c ||
    (brackets && (c == ',' || c == '[' || c == ']'))

def escapedByte : List Char → Option (UInt8 × List Char)
  | '%' :: a :: b :: rest => do
    let high ← Numeral.digit? 16 a
    let low ← Numeral.digit? 16 b
    return (UInt8.ofNat (high * 16 + low), rest)
  | _ => none

def continuation : Nat → List Char → Option (List UInt8 × List Char)
  | 0, rest => some ([], rest)
  | n + 1, rest => do
    let (b, rest) ← escapedByte rest
    if b < 0x80 || 0xC0 ≤ b then none
    let (bytes, rest) ← continuation n rest
    return (b :: bytes, rest)

def following? (b : UInt8) : Option Nat :=
  if b < 0x80 then some 0
  else if b < 0xC0 then none
  else if b < 0xE0 then some 1
  else if b < 0xF0 then some 2
  else if b < 0xF8 then some 3
  else none

/-- An address, in which a percent sign and two hexadecimal digits stand for a byte; and what
comes after it. -/
def uri (brackets : Bool) : Nat → List Char → Option (List Char × List Char)
  | 0, _ => none
  | fuel + 1, text =>
    match text with
    | [] => some ([], [])
    | '%' :: _ => do
      let (byte, rest) ← escapedByte text
      let (bytes, rest) ← continuation (← following? byte) rest
      let (tail, rest) ← uri brackets fuel rest
      return (Utf8.decode (byte :: bytes) ++ tail, rest)
    | c :: rest => do
      if !isUriChar brackets c then return ([], text)
      let (tail, rest) ← uri brackets fuel rest
      return (c :: tail, rest)

def readUri (brackets : Bool) (c : Cursor) : Option (List Char × Cursor) := do
  let (text, rest) ← uri brackets (c.rest.length + 1) c.rest
  return (text, c.skip (c.rest.length - rest.length))

/-- The handle of a tag: an exclamation mark, a name, and perhaps a second mark. -/
def handle (directive : Bool) (c : Cursor) : Option (List Char × Cursor) :=
  match c.rest with
  | '!' :: rest =>
    let name := rest.takeWhile isNameChar
    match rest.drop name.length with
    | '!' :: _ => some ('!' :: name ++ ['!'], c.skip (name.length + 2))
    | _ => if directive && name ≠ [] then none else some ('!' :: name, c.skip (name.length + 1))
  | _ => none

def directive (s : Scanner) : Option Scanner := do
  let c := s.place.skip 1
  let name := c.rest.takeWhile isNameChar
  let c := c.skip name.length
  if name = [] || !atSpace c.rest then none
  let (token, c) ←
    if name = "YAML".toList then do
      let (major, c) ← number (c.skipWhile isBlank)
      if c.peek? ≠ some '.' then none
      let (minor, c) ← number (c.skip 1)
      pure (Token.versionDirective major minor, c)
    else if name = "TAG".toList then do
      let (handle, c) ← handle true (c.skipWhile isBlank)
      if !(c.peek?).any isBlank then none
      let (uri, c) ← readUri true (c.skipWhile isBlank)
      if uri = [] || !atSpace c.rest then none
      pure (Token.tagDirective handle uri, c)
    else none
  let c := c.skipWhile isBlank
  let c := if c.peek? == some '#' then c.skipWhile (!isBreak ·) else c
  if !atBreak c.rest then none
  return { s.emit token with place := if c.rest = [] then c else c.skipBreak }

/-- A tag: its address in angle brackets, or a handle and a suffix. A lone exclamation mark is a
suffix without a handle. -/
def tag (c : Cursor) : Option (Token × Cursor) :=
  match c.rest with
  | '!' :: '<' :: _ => do
    let (uri, c) ← readUri true (c.skip 2)
    if uri = [] || c.peek? ≠ some '>' then none
    return (.tag [] uri, c.skip 1)
  | _ => do
    let (h, after) ← handle false c
    if 2 ≤ h.length && h.getLast? == some '!' then
      let (uri, after) ← readUri false after
      if uri = [] then none
      return (.tag h uri, after)
    else
      let (uri, after) ← readUri false after
      let suffix := h.drop 1 ++ uri
      return (if suffix = [] then .tag [] ['!'] else .tag ['!'] suffix, after)

def nameAfter (c : Cursor) : Option (List Char × Cursor) :=
  let c := c.skip 1
  let name := c.rest.takeWhile isNameChar
  let c := c.skip name.length
  let ends := atSpace c.rest || (c.peek?).any fun d => "?:,]\x7d%@\x60".toList.contains d
  if name = [] || !ends then none else some (name, c)

def flowStart (s : Scanner) (t : Token) : Option Scanner := do
  let s ← s.saveKey
  return ({ s with flowKeys := none :: s.flowKeys, keyAllowed := true }.emit t).skip 1

def flowEnd (s : Scanner) (t : Token) : Option Scanner := do
  let s ← s.dropKey
  return ({ s with flowKeys := s.flowKeys.drop 1, keyAllowed := false }.emit t).skip 1

def blockEntry (s : Scanner) : Option Scanner := do
  if !s.inFlow && !s.keyAllowed then none
  let s := s.roll s.place.column s.tokens.length .blockSequenceStart
  let s ← s.dropKey
  return ({ s with keyAllowed := true }.emit .blockEntry).skip 1

def explicitKey (s : Scanner) : Option Scanner := do
  if !s.inFlow && !s.keyAllowed then none
  let s := s.roll s.place.column s.tokens.length .blockMappingStart
  let s ← s.dropKey
  return ({ s with keyAllowed := !s.inFlow }.emit .key).skip 1

def value (s : Scanner) : Option Scanner := do
  match s.pendingKey with
  | some k =>
    let s := (s.insert k.tokens .key).setKey none
    let s := s.roll k.column k.tokens .blockMappingStart
    return ({ s with keyAllowed := false }.emit .value).skip 1
  | none =>
    if !s.inFlow && !s.keyAllowed then none
    let s := s.roll s.place.column s.tokens.length .blockMappingStart
    return ({ s with keyAllowed := !s.inFlow }.emit .value).skip 1

def named (s : Scanner) (t : List Char → Token) : Option Scanner := do
  let s ← s.saveKey
  let (name, place) ← nameAfter s.place
  return { s.emit (t name) with place, keyAllowed := false }

def tagged (s : Scanner) : Option Scanner := do
  let s ← s.saveKey
  let (token, place) ← tag s.place
  if !atSpace place.rest && !(s.inFlow && place.peek? == some ',') then none
  return { s.emit token with place, keyAllowed := false }

def blockScalar (s : Scanner) (style : Style) : Option Scanner := do
  let s ← s.dropKey
  let scanned ← Block.read (style = .literal) s.indent s.place
  return { s.emit (.scalar scanned.value style) with place := scanned.after, keyAllowed := true }

def quotedScalar (s : Scanner) (style : Style) : Option Scanner := do
  let s ← s.saveKey
  let c := s.place.skip 1
  let scanned ← Quoted.read (style = .singleQuoted) (c.rest.length + 1) c []
  return { s.emit (.scalar scanned.value style) with place := scanned.after, keyAllowed := false }

def plainScalar (s : Scanner) : Option Scanner := do
  let s ← s.saveKey
  let scanned ← Plain.read s.inFlow s.leastColumn (s.place.rest.length + 1) s.place [] ⟨[], []⟩
  return { s.emit (.scalar scanned.value .plain) with
    place := scanned.after, keyAllowed := scanned.freshLine }

def startsPlain (s : Scanner) (c : Char) (rest : List Char) : Bool :=
  !(isBlank c || isBreak c || "-?:,[]\x7b\x7d#&*!|>'\"%@\x60".toList.contains c) ||
    (c == '-' && !(rest.head?.any isBlank)) ||
    (!s.inFlow && (c == '?' || c == ':') && !atSpace rest)

/-- Reads one token more; the text is not at its end. -/
def fetch (s : Scanner) (c : Char) (rest : List Char) : Option Scanner := do
  let column := s.place.column
  if column = 0 && c = '%' then
    let s ← (s.unroll none).dropKey
    directive { s with keyAllowed := false }
  else if s.place.atMarker then
    let s ← (s.unroll none).dropKey
    let t := if c = '-' then Token.documentStart else .documentEnd
    return ({ s with keyAllowed := false }.emit t).skip 3
  else if c = '[' then s.flowStart .flowSequenceStart
  else if c = '{' then s.flowStart .flowMappingStart
  else if c = ']' then s.flowEnd .flowSequenceEnd
  else if c = '}' then s.flowEnd .flowMappingEnd
  else if c = ',' then
    let s ← s.dropKey
    return ({ s with keyAllowed := true }.emit .flowEntry).skip 1
  else if c = '-' && atSpace rest then s.blockEntry
  else if c = '?' && (s.inFlow || atSpace rest) then s.explicitKey
  else if c = ':' && (s.inFlow || atSpace rest) then s.value
  else if c = '*' then s.named .alias
  else if c = '&' then s.named .anchor
  else if c = '!' then s.tagged
  else if c = '|' && !s.inFlow then s.blockScalar .literal
  else if c = '>' && !s.inFlow then s.blockScalar .folded
  else if c = '\'' then s.quotedScalar .singleQuoted
  else if c = '"' then s.quotedScalar .doubleQuoted
  else if s.startsPlain c rest then s.plainScalar
  else none

/-- Reads tokens up to the end of the text. -/
def run : Nat → Scanner → Option (List Token)
  | 0, _ => none
  | fuel + 1, s => do
    let s ← (toToken (s.place.rest.length + 1) s).dropStale
    let s := s.unroll (some s.place.column)
    match s.place.rest with
    | [] =>
      let s ← (s.unroll none).dropKey
      return s.tokens
    | c :: rest => run fuel (← s.fetch c rest)

end Scanner

def tokens? (text : List Char) : Option (List Token) :=
  let start := Scanner.ofText text
  let start := if text.head? = some '\uFEFF' then start.skip 1 else start
  if text.all isAllowed then start.run (text.length + 1) else none

end SplitEditor.Yaml
