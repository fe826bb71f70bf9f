import SplitEditor.Log
import SplitEditor.Text.Numeral

/-! Which log events are let through: directives that name a level, for everything or for one
target or span. -/

namespace SplitEditor

inductive LogLimit where
  | off
  | error
  | warn
  | info
  | debug
  | trace
  deriving Repr, DecidableEq

namespace LogLimit

def name : LogLimit → String
  | off => "off"
  | error => "error"
  | warn => "warn"
  | info => "info"
  | debug => "debug"
  | trace => "trace"

def all : List LogLimit := [off, error, warn, info, debug, trace]

def rank (l : LogLimit) : Nat := all.idxOf l

def max (a b : LogLimit) : LogLimit := if a.rank < b.rank then b else a

def ofLevel : LogLevel → LogLimit
  | .error => error
  | .warn => warn
  | .info => info
  | .debug => debug

def lets (l : LogLimit) (level : LogLevel) : Bool := (ofLevel level).rank ≤ l.rank

def ofText? (text : List Char) : Option LogLimit :=
  match Numeral.parse 10 0x10000000000000000 text with
  | .ok n => all[n]?
  | .error _ => all.find? fun l => l.name.toList = text.map Char.toLower

end LogLimit

def isWhite (c : Char) : Bool :=
  let n := c.toNat
  (9 ≤ n && n ≤ 13) || n == 0x20 || n == 0x85 || n == 0xA0 || n == 0x1680 ||
    (0x2000 ≤ n && n ≤ 0x200A) || n == 0x2028 || n == 0x2029 || n == 0x202F || n == 0x205F ||
    n == 0x3000

def trimWhite (text : List Char) : List Char :=
  ((text.dropWhile isWhite).reverse.dropWhile isWhite).reverse

/-- What a directive holds for: events of a target, of a span, of both or of neither. -/
structure LogDirective where
  target : Option String
  span : Option String
  limit : LogLimit
  deriving Repr, DecidableEq

namespace LogDirective

def startsWith (c : Char) : Bool :=
  c.isAlphanum || c == '-' || c == ':' || c == '_' || c == '[' || 0x80 ≤ c.toNat

def limit? : List Char → Option LogLimit
  | [] | ['='] => some .trace
  | '=' :: level => LogLimit.ofText? level
  | _ => none

/-- A level, or a target, a span in brackets or both, and perhaps the level for them. -/
def ofText? (text : List Char) : Option LogDirective := do
  let text := trimWhite text
  if !text.head?.any startsWith then none
  let target := text.takeWhile fun c => c ≠ '=' ∧ c ≠ '['
  let named := if target = [] then none else some (String.ofList target)
  match text.drop target.length with
  | [] =>
    match LogLimit.ofText? target with
    | some limit => return ⟨none, none, limit⟩
    | none => return ⟨named, none, .trace⟩
  | '[' :: rest =>
    let span := rest.takeWhile (· ≠ ']')
    if !(rest.drop span.length).head?.isSome || span.contains '\x7b' then none
    return ⟨named, some (String.ofList span), ← limit? (rest.drop (span.length + 1))⟩
  | level => return ⟨named, none, ← limit? level⟩

end LogDirective

structure LogFilter where
  directives : List LogDirective
  deriving Repr, DecidableEq

namespace LogFilter

def parts (text : List Char) : List (List Char) :=
  text.foldr (fun c parts => if c = ',' then [] :: parts else parts.modifyHead (c :: ·)) [[]]

def ofText? (text : String) : Option LogFilter := do
  let directives ← ((parts text.toList).filter (· ≠ [])).mapM LogDirective.ofText?
  return ⟨if directives = [] then [⟨none, none, .error⟩] else directives⟩

def maxLimit (f : LogFilter) : LogLimit :=
  f.directives.foldl (fun l d => l.max d.limit) .off

def choose (environment : Option String) (configured : String) : LogFilter :=
  let requested := do
    let text := trimWhite (← environment).toList
    if text = [] then none else ofText? (String.ofList text)
  ((requested <|> ofText? configured).getD ⟨[⟨none, none, .warn⟩]⟩)

end LogFilter

end SplitEditor
