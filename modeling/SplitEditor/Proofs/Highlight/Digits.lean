import SplitEditor.Highlight.Pattern

/-! The digits one by one. -/

namespace SplitEditor.Pattern

def digits : List Char := ['0', '1', '2', '3', '4', '5', '6', '7', '8', '9']

def hexDigits : List Char :=
  digits ++ ['a', 'b', 'c', 'd', 'e', 'f'] ++ ['A', 'B', 'C', 'D', 'E', 'F']

theorem forall_of_below {p : Char → Bool} {P : Char → Prop} (last : Char)
    (hlast : ∀ c, p c → c ≤ last) (h : ∀ n ≤ last.toNat, p (Char.ofNat n) → P (Char.ofNat n)) :
    ∀ c, p c → P c := by
  intro c hc
  have hofNat := h c.toNat (hlast c hc)
  rw [Char.ofNat_toNat] at hofNat
  exact hofNat hc

theorem isDigit_iff_mem (c : Char) : isDigit c ↔ c ∈ digits := by
  constructor
  · refine forall_of_below '9' (fun c hc => ?_) (by decide) c
    exact of_decide_eq_true (Bool.and_eq_true_iff.1 hc).2
  · exact List.all_eq_true.1 (show digits.all isDigit by decide) c

theorem isHexDigit_iff_mem (c : Char) : isHexDigit c ↔ c ∈ hexDigits := by
  constructor
  · refine forall_of_below 'f' (fun c hc => ?_) (by decide) c
    simp only [isHexDigit, isDigit, Bool.or_eq_true, Bool.and_eq_true, decide_eq_true_eq] at hc
    obtain (⟨-, hc⟩ | ⟨-, hc⟩) | ⟨-, hc⟩ := hc
    · exact Char.le_trans hc (by decide)
    · exact hc
    · exact Char.le_trans hc (by decide)
  · exact List.all_eq_true.1 (show hexDigits.all isHexDigit by decide) c

theorem utf8Size_of_isDigit {c : Char} (h : isDigit c) : c.utf8Size = 1 := by
  have hall : digits.all fun c => c.utf8Size = 1 := by decide
  exact of_decide_eq_true (List.all_eq_true.1 hall c ((isDigit_iff_mem c).1 h))

theorem utf8Size_of_isHexDigit {c : Char} (h : isHexDigit c) : c.utf8Size = 1 := by
  have hall : hexDigits.all fun c => c.utf8Size = 1 := by decide
  exact of_decide_eq_true (List.all_eq_true.1 hall c ((isHexDigit_iff_mem c).1 h))

end SplitEditor.Pattern
