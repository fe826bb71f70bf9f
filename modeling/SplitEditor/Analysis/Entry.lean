import SplitEditor.Wasm.Numeric

/-! What every analysis binary exports: the functions below, in the order in which they are
looked for, and its memory. A function that takes the buffer of a source back is optional. -/

namespace SplitEditor

open Wasm

inductive Entry where
  | alloc
  | compile
  | hover
  | definition
  | references
  | resultIsOk
  | resultOk
  | resultError
  | bufPtr
  | bufLen
  | errorMsgPtr
  | errorMsgLen
  | errorSpan
  | spanLineFrom
  | spanColumnFrom
  | spanLineTo
  | spanColumnTo
  | hoverType
  | hoverSpan
  | spansGet
  deriving Repr, DecidableEq

namespace Entry

def all : List Entry :=
  [alloc, compile, hover, definition, references, resultIsOk, resultOk, resultError, bufPtr,
    bufLen, errorMsgPtr, errorMsgLen, errorSpan, spanLineFrom, spanColumnFrom, spanLineTo,
    spanColumnTo, hoverType, hoverSpan, spansGet]

theorem mem_all (e : Entry) : e ∈ all := by cases e <;> decide

def name : Entry → String
  | alloc => "alloc"
  | compile => "ASL_compile"
  | hover => "ASL_hover"
  | definition => "ASL_go_to_definition"
  | references => "ASL_find_all_references"
  | resultIsOk => "Result_is_ok"
  | resultOk => "Result_ok"
  | resultError => "Result_error"
  | bufPtr => "Buf_as_ptr"
  | bufLen => "Buf_len"
  | errorMsgPtr => "Error_msg_ptr"
  | errorMsgLen => "Error_msg_len"
  | errorSpan => "Error_span"
  | spanLineFrom => "Span_line_from"
  | spanColumnFrom => "Span_column_from"
  | spanLineTo => "Span_line_to"
  | spanColumnTo => "Span_column_to"
  | hoverType => "Hover_ty"
  | hoverSpan => "Hover_span"
  | spansGet => "Spans_get"

def arity : Entry → Nat
  | hover | definition | references => 3
  | spansGet => 2
  | _ => 1

def type (e : Entry) : FuncType := ⟨List.replicate e.arity .i32, [.i32]⟩

end Entry

namespace Interface

def memoryName : String := "memory"

def deallocName : String := "dealloc"

def deallocType : FuncType := ⟨[.i32, .i32], []⟩

end Interface

end SplitEditor
