import SplitEditor.Highlight.Pattern
import SplitEditor.Highlight.Token

/-! The reading shared by all grammars: strings and nested block comments are the same
everywhere, and a grammar adds the rules for code. Each step colours at least one character, so
the reading ends with the text. -/

namespace SplitEditor

open Pattern

/-- Where the reading stands. Strings and comments leave the mode of the code around them as
it was; a comment counts the comments it is nested in. -/
inductive State (μ : Type) where
  | code (mode : μ)
  | string (mode : μ)
  | comment (mode : μ) (outer : Nat)
  deriving Repr, DecidableEq

/-- A colour for the next `more + 1` characters. -/
structure Paint where
  kind : TokenKind
  scope : String
  more : Nat
  deriving Repr, DecidableEq

def Paint.of (kind : TokenKind) (more : Nat) : Paint := ⟨kind, kind.scope, more⟩

/-- What one rule does: the colours it lays on, in order, and the state after them. -/
structure Step (μ : Type) where
  first : Paint
  others : List Paint
  next : State μ
  deriving Repr, DecidableEq

namespace Step

variable {μ : Type}

def one (kind : TokenKind) (more : Nat) (next : State μ) : Step μ := ⟨.of kind more, [], next⟩

def inString (mode : μ) (c : Char) (cs : List Char) : Step μ :=
  if c = '"' then one .stringQuote 0 (.code mode)
  else if c = '\\' then
    match escapeLength (c :: cs) with
    | some n => one .stringEscape (n - 1) (.string mode)
    | none => one .stringEscapeInvalid (min 1 cs.length) (.string mode)
  else one .string (run (fun d => d != '"' && d != '\\') cs) (.string mode)

def closeComment (mode : μ) : Nat → State μ
  | 0 => .code mode
  | outer + 1 => .comment mode outer

def inComment (mode : μ) (outer : Nat) (c : Char) (cs : List Char) : Step μ :=
  match c, cs with
  | '/', '*' :: _ => one .comment 1 (.comment mode (outer + 1))
  | '*', '/' :: _ => one .comment 1 (closeComment mode outer)
  | _, _ =>
    let more := if c = '/' ∨ c = '*' then 0 else run (fun d => d != '/' && d != '*') cs
    one .comment more (.comment mode outer)

def layout? (mode : μ) (c : Char) (cs : List Char) : Option (Step μ) :=
  if isBlank c then some (one .white (run isBlank cs) (.code mode))
  else
    match c, cs with
    | '/', '*' :: _ => some (one .comment 1 (.comment mode 0))
    | '/', '/' :: _ => some (one .comment (line cs).length (.code mode))
    | _, _ => none

end Step

/-- The rules for code, and the mode a text starts in. -/
structure Grammar (μ : Type) where
  start : μ
  code : μ → Char → List Char → Step μ

namespace Grammar

variable {μ : Type}

def step (g : Grammar μ) : State μ → Char → List Char → Step μ
  | .code mode, c, cs => g.code mode c cs
  | .string mode, c, cs => Step.inString mode c cs
  | .comment mode outer, c, cs => Step.inComment mode outer c cs

def lay : List Paint → List Char → List Lexeme × List Char
  | [], cs => ([], cs)
  | _ :: _, [] => ([], [])
  | p :: ps, c :: cs =>
    let (lexemes, rest) := lay ps (cs.drop p.more)
    (⟨p.kind, p.scope, c :: cs.take p.more⟩ :: lexemes, rest)

theorem length_lay_le (ps : List Paint) (cs : List Char) : (lay ps cs).2.length ≤ cs.length := by
  induction ps generalizing cs with
  | nil => simp [lay]
  | cons p ps ih =>
    cases cs with
    | nil => simp [lay]
    | cons c cs =>
      have h := ih (cs.drop p.more)
      simp only [lay, List.length_cons, List.length_drop] at h ⊢
      omega

/-- The lexemes of a text read from a state on. -/
def lexemes (g : Grammar μ) (state : State μ) : List Char → List Lexeme
  | [] => []
  | c :: cs =>
    let step := g.step state c cs
    let first := ⟨step.first.kind, step.first.scope, c :: cs.take step.first.more⟩
    first :: (lay step.others (cs.drop step.first.more)).1 ++
      lexemes g step.next (lay step.others (cs.drop step.first.more)).2
termination_by cs => cs.length
decreasing_by
  have h := length_lay_le (g.step state c cs).others (cs.drop (g.step state c cs).first.more)
  simp only [List.length_cons, List.length_drop] at h ⊢
  omega

def tokens (g : Grammar μ) (text : List Char) : List Token :=
  Lexeme.place 0 (Lexeme.joined (g.lexemes (.code g.start) text))

end Grammar

end SplitEditor
