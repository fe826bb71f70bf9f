import SplitEditor.Text.Numeral
import SplitEditor.Yaml.Cursor

/-! The scalars of YAML: plain, quoted and block. Line breaks inside plain and quoted scalars are
folded: one becomes a space, of several the first is dropped. -/

namespace SplitEditor.Yaml

structure Gap where
  blanks : List Char
  breaks : List Char
  deriving Repr, DecidableEq

namespace Gap

def fold (g : Gap) : List Char :=
  match g.breaks with
  | [] => g.blanks
  | ['\n'] => [' ']
  | '\n' :: more => more
  | breaks => breaks

/-- Reads a gap. A tab in front of the indentation, on a line after the first, is refused. -/
def read (indent : Nat) : Nat → Cursor → Gap → Option (Gap × Cursor)
  | 0, _, _ => none
  | fuel + 1, c, g =>
    match c.peek? with
    | none => some (g, c)
    | some d =>
      if isBlank d then
        if d = '\t' ∧ g.breaks ≠ [] ∧ c.column < indent then none
        else read indent fuel (c.skip 1)
          (if g.breaks = [] then { g with blanks := g.blanks ++ [d] } else g)
      else if isBreak d then
        read indent fuel c.skipBreak ⟨[], g.breaks ++ [c.breakChar]⟩
      else some (g, c)

end Gap

/-- A scalar's value, the place after it, and whether it ended at the start of a new line. -/
structure Scanned where
  value : List Char
  after : Cursor
  freshLine : Bool
  deriving Repr, DecidableEq

namespace Plain

def isFlowIndicator (c : Char) : Bool :=
  c == ',' || c == '[' || c == ']' || c == '\x7b' || c == '\x7d'

/-- One word: the characters up to a blank, a break or an indicator that ends a plain scalar.
In a flow collection a colon in front of an indicator is refused. -/
def word (flow : Bool) : List Char → Option (List Char)
  | [] => some []
  | c :: rest =>
    if isBlank c || isBreak c then some []
    else
      let next := rest.head?
      if flow && c == ':' && next.any (fun d => isFlowIndicator d || d == '?') then none
      else if (c == ':' && atSpace rest) || (flow && isFlowIndicator c) then some []
      else (word flow rest).map (c :: ·)

/-- The words of a plain scalar. `indent` is the least column a further line may start at. -/
def read (flow : Bool) (indent : Nat) : Nat → Cursor → List Char → Gap → Option Scanned
  | 0, _, _, _ => none
  | fuel + 1, c, value, gap =>
    if c.atMarker || c.peek? == some '#' then some ⟨value, c, gap.breaks ≠ []⟩
    else do
      let w ← word flow c.rest
      let (value, gap) := if w = [] then (value, gap) else (value ++ gap.fold ++ w, ⟨[], []⟩)
      let c := c.skip w.length
      if c.rest = [] || !atSpace c.rest then return ⟨value, c, gap.breaks ≠ []⟩
      let (gap, c) ← gap.read indent (c.rest.length + 1) c
      if !flow && c.column < indent then return ⟨value, c, gap.breaks ≠ []⟩
      read flow indent fuel c value gap

end Plain

namespace Quoted

/-- What a one-character escape stands for. -/
def simpleEscape? : Char → Option Char
  | '0' => some '\x00'
  | 'a' => some '\x07'
  | 'b' => some '\x08'
  | 't' | '\t' => some '\t'
  | 'n' => some '\n'
  | 'v' => some '\x0b'
  | 'f' => some '\x0c'
  | 'r' => some '\r'
  | 'e' => some '\x1b'
  | ' ' => some ' '
  | '"' => some '"'
  | '/' => some '/'
  | '\\' => some '\\'
  | 'N' => some '\u0085'
  | '_' => some '\u00a0'
  | 'L' => some '\u2028'
  | 'P' => some '\u2029'
  | _ => none

def escapeDigits? : Char → Option Nat
  | 'x' => some 2
  | 'u' => some 4
  | 'U' => some 8
  | _ => none

def ofDigits? (count : Nat) (digits : List Char) : Option Char := do
  if digits.length ≠ count then none
  let point ← digits.foldlM (fun n c => (Numeral.digit? 16 c).map (n * 16 + ·)) 0
  if point.isValidChar then some (Char.ofNat point) else none

/-- The body of a quoted scalar after its opening quote, up to and including the closing one. -/
def read (single : Bool) : Nat → Cursor → List Char → Option Scanned
  | 0, _, _ => none
  | fuel + 1, c, value =>
    if c.atMarker then none
    else
      match c.rest with
      | [] => none
      | '\'' :: '\'' :: _ =>
        if single then read single fuel (c.skip 2) (value ++ ['\''])
        else read single fuel (c.skip 1) (value ++ ['\''])
      | d :: rest =>
        if isBlank d || isBreak d then do
          let (gap, c) ← Gap.read 0 (c.rest.length + 1) c ⟨[], []⟩
          read single fuel c (value ++ gap.fold)
        else if single then
          if d = '\'' then some ⟨value, c.skip 1, false⟩
          else read single fuel (c.skip 1) (value ++ [d])
        else if d = '"' then some ⟨value, c.skip 1, false⟩
        else if d = '\\' then
          match rest with
          | [] => none
          | e :: digits =>
            if isBreak e then do
              -- a break behind a backslash vanishes, and the blanks after it with it
              let (gap, c) ← Gap.read 0 (c.rest.length + 1) (c.skip 1).skipBreak ⟨[], ['\u2028']⟩
              read single fuel c (value ++ gap.breaks.drop 1)
            else
              match simpleEscape? e with
              | some x => read single fuel (c.skip 2) (value ++ [x])
              | none => do
                let count ← escapeDigits? e
                let x ← ofDigits? count (digits.take count)
                read single fuel (c.skip (2 + count)) (value ++ [x])
        else read single fuel (c.skip 1) (value ++ [d])

end Quoted

namespace Block

inductive Chomping where
  | clip
  | strip
  | keep
  deriving Repr, DecidableEq

/-- What follows the indicator of a block scalar: how its end is chomped, and by how much it is
indented, each at most once. -/
def header (text : List Char) : Option (Chomping × Nat × List Char) :=
  let chomping? : Char → Option Chomping
    | '+' => some .keep
    | '-' => some .strip
    | _ => none
  match text with
  | [] => some (.clip, 0, [])
  | c :: rest =>
    match chomping? c with
    | some chomping =>
      match rest with
      | '0' :: _ => none
      | d :: rest => if d.isDigit then some (chomping, d.toNat - 48, rest)
        else some (chomping, 0, d :: rest)
      | [] => some (chomping, 0, [])
    | none =>
      if c = '0' then none
      else if c.isDigit then
        match rest with
        | d :: more =>
          match chomping? d with
          | some chomping => some (chomping, c.toNat - 48, more)
          | none => some (.clip, c.toNat - 48, rest)
        | [] => some (.clip, c.toNat - 48, [])
      else some (.clip, 0, text)

/-- Indentation and empty lines. `indent` is zero as long as it is not known; then the deepest
column reached decides, but at least `least`. -/
def breaks (indent least : Nat) : Nat → Cursor → Nat → List Char →
    Option (Nat × List Char × Cursor)
  | 0, _, _, _ => none
  | fuel + 1, c, deepest, out =>
    let spaces := (c.rest.takeWhile (· == ' ')).length
    let c := c.skip (if indent = 0 then spaces else min spaces (indent - c.column))
    let deepest := max deepest c.column
    if (indent = 0 || c.column < indent) && c.peek? == some '\t' then none
    else if (c.peek?).any isBreak then
      breaks indent least fuel c.skipBreak deepest (out ++ [c.breakChar])
    else some (if indent = 0 then max deepest (max least 1) else indent, out, c)

/-- The lines of a block scalar. `held` is the break after the last line, `trailing` the empty
lines after that, `blank` tells that the last line started with a blank. -/
def lines (literal : Bool) (chomping : Chomping) (indent : Nat) :
    Nat → Cursor → List Char → Option Char → List Char → Bool → Option Scanned
  | 0, _, _, _, _, _ => none
  | fuel + 1, c, value, held, trailing, blank =>
    if c.column ≠ indent || c.rest = [] then
      let value := match chomping with
        | .strip => value
        | .clip => value ++ held.toList
        | .keep => value ++ held.toList ++ trailing
      some ⟨value, c, true⟩
    else do
      let startsBlank := (c.peek?).any isBlank
      let folds := !literal && held == some '\n' && !blank && !startsBlank
      let joined := if folds then (if trailing = [] then [' '] else []) else held.toList
      let text := c.rest.takeWhile (!isBreak ·)
      let c := c.skip text.length
      let held := if c.rest = [] then none else some c.breakChar
      let c := if c.rest = [] then c else c.skipBreak
      let (_, next, c) ← breaks indent 0 (c.rest.length + 1) c 0 []
      lines literal chomping indent fuel c (value ++ joined ++ trailing ++ text) held next
        startsBlank

/-- A block scalar, from its indicator on. `indent` is the column of the collection it stands
in, if there is one. -/
def read (literal : Bool) (indent : Option Nat) (c : Cursor) : Option Scanned := do
  let (chomping, increment, rest) ← header (c.rest.drop 1)
  let c := c.skip (c.rest.length - rest.length)
  let c := c.skipWhile isBlank
  let c := if c.peek? == some '#' then c.skipWhile (!isBreak ·) else c
  if !atBreak c.rest then none
  let c := if c.rest = [] then c else c.skipBreak
  let least := indent.elim 0 (· + 1)
  let wanted := if increment = 0 then 0 else indent.getD 0 + increment
  let (indent, leading, c) ← breaks wanted least (c.rest.length + 1) c 0 []
  lines literal chomping indent (c.rest.length + 1) c [] none leading false

end Block

end SplitEditor.Yaml
