import SplitEditor.Highlight.Grammar

/-! The grammar of module outlines, the text format of WebAssembly modules. Besides the usual
comments it knows `;;`, which runs to the end of the line. -/

namespace SplitEditor.Outline

open Pattern

def keywords : List String :=
  ["module", "table", "memory", "export", "import", "func", "result", "offset", "anyfunc", "type",
    "data", "start", "element", "global", "local", "mut", "param", "call", "drop", "tag",
    "i32.load8_s", "i32.load8_u", "i32.load16_s", "i32.load16_u", "i32.load", "i64.load8_s",
    "i64.load8_u", "i64.load16_s", "i64.load16_u", "i64.load32_s", "i64.load32_u", "i64.load",
    "f32.load", "f64.load", "i32.store8", "i32.store16", "i32.store", "i64.store8", "i64.store16",
    "i64.store32", "i64.store", "f32.store", "f64.store", "i32.const", "i64.const", "f32.const",
    "f64.const", "i32.add", "i32.sub", "i32.mul", "i32.div_s", "i32.div_u", "i32.rem_s",
    "i32.rem_u", "i32.and", "i32.or", "i32.xor", "i32.shl", "i32.shr_u", "i32.shr_s", "i32.rotl",
    "i32.rotr", "i32.eq", "i32.ne", "i32.lt_s", "i32.le_s", "i32.lt_u", "i32.le_u", "i32.gt_s",
    "i32.ge_s", "i32.gt_u", "i32.ge_u", "i32.clz", "i32.ctz", "i32.popcnt", "i32.eqz", "i64.add",
    "i64.sub", "i64.mul", "i64.div_s", "i64.div_u", "i64.rem_s", "i64.rem_u", "i64.and", "i64.or",
    "i64.xor", "i64.shl", "i64.shr_u", "i64.shr_s", "i64.rotl", "i64.rotr", "i64.eq", "i64.ne",
    "i64.lt_s", "i64.le_s", "i64.lt_u", "i64.le_u", "i64.gt_s", "i64.ge_s", "i64.gt_u",
    "i64.ge_u", "i64.clz", "i64.ctz", "i64.popcnt", "i64.eqz", "f32.add", "f32.sub", "f32.mul",
    "f32.div", "f32.abs", "f32.neg", "f32.copysign", "f32.ceil", "f32.floor", "f32.trunc",
    "f32.nearest", "f32.eq", "f32.ne", "f32.lt", "f32.le", "f32.gt", "f32.ge", "f32.sqrt",
    "f32.min", "f32.max", "f64.add", "f64.sub", "f64.mul", "f64.div", "f64.abs", "f64.neg",
    "f64.copysign", "f64.ceil", "f64.floor", "f64.trunc", "f64.nearest", "f64.eq", "f64.ne",
    "f64.lt", "f64.le", "f64.gt", "f64.ge", "f64.sqrt", "f64.min", "f64.max", "i32.wrap/i64",
    "i32.trunc_s/f32", "i32.trunc_s/f64", "i32.trunc_u/f32", "i32.trunc_u/f64",
    "i32.reinterpret/f32", "i64.extend_s/i32", "i64.extend_u/i32", "i64.trunc_s/f32",
    "i64.trunc_s/f64", "i64.trunc_u/f32", "i64.trunc_u/f64", "i64.reinterpret/f64",
    "f32.demote/f64", "f32.convert_s/i32", "f32.convert_s/i64", "f32.convert_u/i32",
    "f32.convert_u/i64", "f32.reinterpret/i32", "f64.promote/f32", "f64.convert_s/i32",
    "f64.convert_s/i64", "f64.convert_u/i32", "f64.convert_u/i64", "f64.reinterpret/i64",
    "get_local", "set_local", "tee_local", "get_global", "set_global", "local.get", "local.set",
    "local.tee", "global.get", "global.set", "current_memory", "grow_memory", "memory.size",
    "memory.grow"]

def typeKeywords : List String := ["i32", "i64", "f32", "f64", "anyfunc"]

def bracketScope? (c : Char) : Option String :=
  if c = '{' ∨ c = '}' then some "bracket.curly"
  else if c = '[' ∨ c = ']' then some "bracket.square"
  else if c = '(' ∨ c = ')' then some "bracket.parenthesis"
  else none

def identifierRun : List Char → Nat
  | [] => 0
  | '/' :: rest =>
    match rest with
    | '/' :: _ | '*' :: _ => 0
    | rest => 1 + identifierRun rest
  | c :: rest => if isWord c || c == '$' || c == '.' then 1 + identifierRun rest else 0

def wordKind (word : String) : TokenKind :=
  if word ∈ keywords then .keyword
  else if word ∈ typeKeywords then .type
  else .typeIdentifier

def other (c : Char) (cs : List Char) : Step Unit :=
  match c, cs with
  | ';', ';' :: _ => .one .comment (line cs).length (.code ())
  | _, _ => (Step.layout? () c cs).getD (.one .text 0 (.code ()))

def code (c : Char) (cs : List Char) : Step Unit :=
  if isLetter c || c == '_' || c == '$' then
    let more := identifierRun cs
    .one (wordKind (String.ofList (c :: cs.take more))) more (.code ())
  else if isDigit c then .one .number (run isDigit cs) (.code ())
  else if c = '"' then .one .stringQuote 0 (.string ())
  else
    match bracketScope? c with
    | some scope => ⟨⟨.bracket, scope, 0⟩, [], .code ()⟩
    | none => other c cs

def grammar : Grammar Unit where
  start := ()
  code _ c cs := code c cs

end SplitEditor.Outline
