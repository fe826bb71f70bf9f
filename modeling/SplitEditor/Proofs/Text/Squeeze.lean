import SplitEditor.Text.Utf8

/-! Texts up to the length of their runs of replacement characters. -/

namespace SplitEditor.Utf8

/-- The text with one replacement character for every run of them. -/
def squeeze : List Char → List Char
  | [] => []
  | c :: text =>
    if c = replacement ∧ text.head? = some replacement then squeeze text else c :: squeeze text

theorem head?_squeeze (text : List Char) : (squeeze text).head? = text.head? := by
  induction text with
  | nil => rfl
  | cons c text ih =>
    rw [squeeze]
    split
    · next h => rw [ih, h.2, h.1, List.head?_cons]
    · rfl

theorem squeeze_cons_congr {s t : List Char} (h : squeeze s = squeeze t) (c : Char) :
    squeeze (c :: s) = squeeze (c :: t) := by
  have hhead : s.head? = t.head? := by rw [← head?_squeeze, h, head?_squeeze]
  rw [squeeze, squeeze, hhead, h]

theorem squeeze_append_congr {s t : List Char} (h : squeeze s = squeeze t) (front : List Char) :
    squeeze (front ++ s) = squeeze (front ++ t) := by
  induction front with
  | nil => exact h
  | cons c front ih => exact squeeze_cons_congr ih c

theorem squeeze_replacement_cons {text : List Char} (h : text.head? = some replacement) :
    squeeze (replacement :: text) = squeeze text := by
  rw [squeeze, if_pos ⟨rfl, h⟩]

theorem squeeze_cons_cons (a b : Char) (text : List Char) :
    squeeze (a :: b :: text) =
      if a = replacement ∧ b = replacement then squeeze (b :: text)
      else a :: squeeze (b :: text) := by
  simp only [squeeze, List.head?_cons, Option.some.injEq]

theorem squeeze_append_singleton (text : List Char) (c : Char) :
    squeeze (text ++ [c]) =
      if c = replacement ∧ text.getLast? = some replacement then squeeze text
      else squeeze text ++ [c] := by
  induction text with
  | nil => simp [squeeze]
  | cons a text ih =>
    cases text with
    | nil =>
      simp only [List.singleton_append, squeeze_cons_cons, List.getLast?_singleton,
        Option.some.injEq, squeeze, List.head?_nil]
      grind
    | cons b text =>
      rw [List.cons_append, List.cons_append, squeeze_cons_cons, ← List.cons_append, ih,
        List.getLast?_cons_cons, squeeze_cons_cons a b text]
      by_cases hab : a = replacement ∧ b = replacement
      · rw [if_pos hab, if_pos hab]
      · rw [if_neg hab, if_neg hab]
        split <;> rfl

theorem squeeze_reverse (text : List Char) : squeeze text.reverse = (squeeze text).reverse := by
  induction text with
  | nil => rfl
  | cons c text ih =>
    rw [List.reverse_cons, squeeze_append_singleton, List.getLast?_reverse, squeeze, ih]
    split <;> simp

end SplitEditor.Utf8
