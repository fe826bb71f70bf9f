/-! The patterns that need more than one character of lookahead. Each gives the number of
characters of the longest match at the head of a text. -/

namespace SplitEditor.Pattern

def isDigit (c : Char) : Bool := '0' ≤ c && c ≤ '9'

def isHexDigit (c : Char) : Bool :=
  isDigit c || ('a' ≤ c && c ≤ 'f') || ('A' ≤ c && c ≤ 'F')

def isLower (c : Char) : Bool := 'a' ≤ c && c ≤ 'z'

def isLetter (c : Char) : Bool := isLower c || ('A' ≤ c && c ≤ 'Z')

def isWord (c : Char) : Bool := isLetter c || isDigit c || c == '_'

def isBlank (c : Char) : Bool := c == ' ' || c == '\t' || c == '\r' || c == '\n'

def run (p : Char → Bool) (text : List Char) : Nat := (text.takeWhile p).length

def line (text : List Char) : List Char := text.takeWhile (· != '\n')

def fixedEscape (digits : Nat) (text : List Char) : Option Nat :=
  if digits ≤ run isHexDigit text then some (2 + digits) else none

/-- A backslash and one of `abfnrtv`, a backslash or a quote; `x` with one to four hexadecimal
digits; `u` with four; `U` with eight. -/
def escapeLength : List Char → Option Nat
  | '\\' :: c :: rest =>
    if c ∈ ['a', 'b', 'f', 'n', 'r', 't', 'v', '\\', '"', '\''] then some 2
    else if c = 'x' then
      let digits := min 4 (run isHexDigit rest)
      if digits = 0 then none else some (2 + digits)
    else if c = 'u' then fixedEscape 4 rest
    else if c = 'U' then fixedEscape 8 rest
    else none
  | _ => none

/-- The length of an exponent: `e` or `E`, perhaps a sign, and digits; zero if there is none. -/
def exponentLength : List Char → Nat
  | e :: rest =>
    if e = 'e' ∨ e = 'E' then
      match rest with
      | '-' :: digits | '+' :: digits =>
        if run isDigit digits = 0 then 0 else 2 + run isDigit digits
      | digits => if run isDigit digits = 0 then 0 else 1 + run isDigit digits
    else 0
  | [] => 0

/-- Digits, a point, digits and perhaps an exponent. -/
def floatLength (text : List Char) : Option Nat :=
  let whole := run isDigit text
  match text.drop whole with
  | '.' :: rest =>
    let fraction := run isDigit rest
    if fraction = 0 then none
    else some (whole + 1 + fraction + exponentLength (rest.drop fraction))
  | _ => none

def hexLength : List Char → Option Nat
  | '0' :: x :: rest =>
    if (x = 'x' ∨ x = 'X') ∧ run isHexDigit rest ≠ 0 then some (2 + run isHexDigit rest)
    else none
  | _ => none

def stringCloses : List Char → Bool
  | [] => false
  | ['\\'] => true
  | '\\' :: _ :: rest => stringCloses rest
  | c :: rest => c == '"' || stringCloses rest

/-- The length, quote included, of a string that ends nowhere on its line. The text is what
follows the quote. -/
def unterminatedLength (text : List Char) : Option Nat :=
  let rest := line text
  if stringCloses rest then none else some (1 + rest.length)

end SplitEditor.Pattern
