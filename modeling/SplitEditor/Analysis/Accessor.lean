import SplitEditor.Analysis.Error
import SplitEditor.Analysis.Value

/-! The questions a result handle can be taken apart with, and the readers that answer them. A
reader may be a live instance or anything else with a state; each answer may change it. -/

namespace SplitEditor

inductive Accessor where
  | resultIsOk (result : Handle)
  | resultOk (result : Handle)
  | resultError (result : Handle)
  | bufBytes (buf : Handle)
  | errorMessage (error : Handle)
  | errorSpan (error : Handle)
  | span (span : Handle)
  | hoverType (hover : Handle)
  | hoverSpan (hover : Handle)
  /-- An entry of a list by its index; the zero handle past the end. -/
  | spansGet (list : Handle) (index : UInt32)
  deriving Repr, DecidableEq

namespace Accessor

@[reducible]
def Answer : Accessor → Type
  | resultIsOk _ => Bool
  | bufBytes _ | errorMessage _ => List UInt8
  | span _ => Span
  | _ => Handle

def handle : Accessor → Handle
  | resultIsOk h | resultOk h | resultError h | bufBytes h | errorMessage h => h
  | errorSpan h | span h | hoverType h | hoverSpan h | spansGet h _ => h

end Accessor

structure ResultReader (σ : Type) where
  read : (a : Accessor) → σ → Except AnalysisError a.Answer × σ

end SplitEditor
