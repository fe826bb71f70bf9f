import SplitEditor.Wasm.Instruction

/-! Instructions with their blocks nested. A block knows how many operands it takes and how
many it leaves. -/

namespace SplitEditor.Wasm

inductive Code where
  | plain (op : Op)
  | block (params results : Nat) (body : List Code)
  | loop (params results : Nat) (body : List Code)
  | cond (params results : Nat) (yes no : List Code)
  deriving Repr

namespace Code

/-- The function type a block type stands for. -/
def resolve (types : List FuncType) : BlockType → Option FuncType
  | .results results => some ⟨[], results⟩
  | .indexed type => types[type]?

inductive Opener where
  | block
  | loop
  | cond
  /-- The second branch of a condition; the first is known. -/
  | otherwise (yes : List Code)
  deriving Repr

/-- A block that has been opened, and the code before it, latest first. -/
structure Open where
  opener : Opener
  params : Nat
  results : Nat
  before : List Code
  deriving Repr

/-- The code of the innermost block so far, latest first, and the blocks around it. -/
structure Builder where
  code : List Code
  around : List Open
  closed : Bool
  deriving Repr

def Open.close (o : Open) (body : List Code) : Code :=
  match o.opener with
  | .block => block o.params o.results body
  | .loop => loop o.params o.results body
  | .cond => cond o.params o.results body []
  | .otherwise yes => cond o.params o.results yes body

def Builder.enter (types : List FuncType) (b : Builder) (opener : Opener) (type : BlockType) :
    Option Builder :=
  (resolve types type).map fun type =>
    ⟨[], ⟨opener, type.params.length, type.results.length, b.code⟩ :: b.around, false⟩

def Builder.feed (types : List FuncType) (b : Builder) (token : Token) : Option Builder :=
  if b.closed then none
  else
    match token with
    | .plain op => some { b with code := plain op :: b.code }
    | .block type => b.enter types .block type
    | .loop type => b.enter types .loop type
    | .cond type => b.enter types .cond type
    | .otherwise =>
      match b.around with
      | ⟨.cond, params, results, before⟩ :: around =>
        some ⟨[], ⟨.otherwise b.code.reverse, params, results, before⟩ :: around, false⟩
      | _ => none
    | .finish =>
      match b.around with
      | o :: around => some ⟨o.close b.code.reverse :: o.before, around, false⟩
      | [] => some { b with closed := true }

def ofTokens? (types : List FuncType) (tokens : List Token) : Option (List Code) := do
  let b ← tokens.foldlM (Builder.feed types) ⟨[], [], false⟩
  if b.closed then return b.code.reverse else none

end Code

end SplitEditor.Wasm
