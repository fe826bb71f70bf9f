import Mathlib.Algebra.Ring.Nat
import SplitEditor.Highlight.Language

/-! No rule of a grammar colours more than there is: whatever comes after a character, the colours
a step lays on end within the text. -/

namespace SplitEditor

namespace Pattern
variable {text : List Char} {n : Nat}

theorem run_le (p : Char → Bool) (text : List Char) : run p text ≤ text.length :=
  (List.takeWhile_prefix p).length_le

theorem length_line_le (text : List Char) : (line text).length ≤ text.length :=
  (List.takeWhile_prefix _).length_le

theorem fixedEscape_bounds {digits : Nat} (h : fixedEscape digits text = some n) :
    0 < n ∧ n ≤ text.length + 2 := by
  unfold fixedEscape at h
  split at h
  · next hdigits =>
    obtain rfl := Option.some.inj h
    have hrun := run_le isHexDigit text
    omega
  · cases h

theorem escapeLength_bounds (h : escapeLength text = some n) : 0 < n ∧ n ≤ text.length := by
  unfold escapeLength at h
  split at h
  · next c rest =>
    rw [List.length_cons, List.length_cons]
    split at h
    · obtain rfl := Option.some.inj h
      omega
    split at h
    · have hrun := run_le isHexDigit rest
      simp only at h
      split at h
      · cases h
      · obtain rfl := Option.some.inj h
        omega
    split at h
    · exact fixedEscape_bounds h
    split at h
    · exact fixedEscape_bounds h
    · cases h
  · cases h

theorem exponentLength_le (text : List Char) : exponentLength text ≤ text.length := by
  unfold exponentLength
  split
  · next e rest =>
    split
    · split
      · next digits =>
        have hrun := run_le isDigit digits
        split <;> simp only [List.length_cons] <;> omega
      · next digits =>
        have hrun := run_le isDigit digits
        split <;> simp only [List.length_cons] <;> omega
      · have hrun := run_le isDigit rest
        split <;> simp only [List.length_cons] <;> omega
    · exact Nat.zero_le _
  · exact Nat.zero_le _

theorem floatLength_bounds (h : floatLength text = some n) : 0 < n ∧ n ≤ text.length := by
  simp only [floatLength] at h
  split at h
  · next rest hrest =>
    split at h
    · cases h
    · obtain rfl := Option.some.inj h
      have hlength := congrArg List.length hrest
      have hexponent := exponentLength_le (rest.drop (run isDigit rest))
      have hfraction := run_le isDigit rest
      have hwhole := run_le isDigit text
      rw [List.length_drop] at hlength hexponent
      rw [List.length_cons] at hlength
      omega
  · cases h

theorem hexLength_bounds (h : hexLength text = some n) : 0 < n ∧ n ≤ text.length := by
  unfold hexLength at h
  split at h
  · next x rest =>
    have hrun := run_le isHexDigit rest
    split at h
    · obtain rfl := Option.some.inj h
      rw [List.length_cons, List.length_cons]
      omega
    · cases h
  · cases h

theorem unterminatedLength_bounds (h : unterminatedLength text = some n) :
    0 < n ∧ n ≤ text.length + 1 := by
  simp only [unterminatedLength] at h
  split at h
  · cases h
  · obtain rfl := Option.some.inj h
    have hline := length_line_le text
    omega

end Pattern

open Pattern

def Paint.extent (p : Paint) : Nat := p.more + 1

def Step.paints {μ : Type} (s : Step μ) : List Paint := s.first :: s.others

def Step.extent {μ : Type} (s : Step μ) : Nat := s.first.extent + (s.others.map Paint.extent).sum

def Grammar.InRange {μ : Type} (g : Grammar μ) : Prop :=
  ∀ state c cs, (g.step state c cs).extent ≤ (c :: cs).length

namespace Step
variable {μ : Type} {c : Char} {cs : List Char}

@[simp] theorem extent_one (kind : TokenKind) (more : Nat) (next : State μ) :
    (one kind more next).extent = more + 1 := rfl

theorem extent_inString_le (mode : μ) (c : Char) (cs : List Char) :
    (inString mode c cs).extent ≤ (c :: cs).length := by
  unfold inString
  split
  · simp
  split
  · split
    · next n h =>
      obtain ⟨hpos, hle⟩ := escapeLength_bounds h
      rw [extent_one]
      omega
    · rw [extent_one, List.length_cons]
      omega
  · rw [extent_one, List.length_cons]
    exact Nat.succ_le_succ (run_le _ cs)

theorem extent_inComment_le (mode : μ) (outer : Nat) (c : Char) (cs : List Char) :
    (inComment mode outer c cs).extent ≤ (c :: cs).length := by
  unfold inComment
  split
  · simp
  · simp
  · have hrun := run_le (fun d => d != '/' && d != '*') cs
    rw [extent_one, List.length_cons]
    split <;> omega

theorem extent_layout?_le {mode : μ} {s : Step μ} (h : layout? mode c cs = some s) :
    s.extent ≤ (c :: cs).length := by
  unfold layout? at h
  split at h
  · obtain rfl := Option.some.inj h
    exact Nat.succ_le_succ (run_le isBlank cs)
  split at h
  · obtain rfl := Option.some.inj h
    simp
  · obtain rfl := Option.some.inj h
    exact Nat.succ_le_succ (length_line_le _)
  · cases h

end Step

theorem Grammar.inRange_of_code {μ : Type} {g : Grammar μ}
    (h : ∀ mode c cs, (g.code mode c cs).extent ≤ (c :: cs).length) : g.InRange := by
  intro state c cs
  cases state with
  | code mode => exact h mode c cs
  | string mode => exact Step.extent_inString_le mode c cs
  | comment mode outer => exact Step.extent_inComment_le mode outer c cs

namespace Script

theorem extent_escapedLiteral_le (cs : List Char) :
    (escapedLiteral cs).extent ≤ cs.length + 1 := by
  unfold escapedLiteral
  split
  · next n h =>
    split
    · next hquote =>
      have hlt : n < cs.length := by
        refine Nat.lt_of_not_le fun hge => ?_
        rw [List.drop_eq_nil_of_le hge] at hquote
        cases hquote
      obtain ⟨hpos, -⟩ := escapeLength_bounds h
      simp only [Step.extent, Paint.extent, Paint.of, List.map_cons, List.map_nil, List.sum_cons,
        List.sum_nil]
      omega
    · simp
  · simp

theorem extent_charLiteral_le (cs : List Char) : (charLiteral cs).extent ≤ cs.length + 1 := by
  unfold charLiteral
  split
  · split
    · simp
    · exact extent_escapedLiteral_le _
  · exact extent_escapedLiteral_le _

theorem extent_other_le (c : Char) (cs : List Char) : (other c cs).extent ≤ (c :: cs).length := by
  have hone (kind : TokenKind) (next : State Mode) :
      (Step.one kind 0 next).extent ≤ (c :: cs).length := by simp
  unfold other
  split
  · exact hone .bracket (.code .plain)
  split
  · exact Nat.succ_le_succ (run_le isSymbol cs)
  split
  · next n _ h =>
    obtain ⟨hpos, hle⟩ := floatLength_bounds h
    rw [Step.extent_one]
    omega
  · next n _ h =>
    obtain ⟨hpos, hle⟩ := hexLength_bounds h
    rw [Step.extent_one]
    omega
  split
  · exact Nat.succ_le_succ (run_le isDigit cs)
  split
  · exact hone _ _
  split
  · split
    · next n h =>
      obtain ⟨hpos, hle⟩ := unterminatedLength_bounds h
      rw [Step.extent_one, List.length_cons]
      omega
    · exact hone _ _
  split
  · exact extent_charLiteral_le cs
  · exact hone _ _

theorem extent_plain_le (c : Char) (cs : List Char) : (plain c cs).extent ≤ (c :: cs).length := by
  unfold plain
  split
  · exact Nat.succ_le_succ (run_le _ cs)
  · cases h : Step.layout? Mode.plain c cs with
    | some s => exact Step.extent_layout?_le h
    | none => exact extent_other_le c cs

theorem extent_named_le (c : Char) (cs : List Char) : (named c cs).extent ≤ (c :: cs).length := by
  unfold named
  split
  · next s h => exact Step.extent_layout?_le h
  split
  · exact Nat.succ_le_succ (run_le isWord cs)
  · exact extent_plain_le c cs

theorem inRange : grammar.InRange := by
  refine Grammar.inRange_of_code fun mode c cs => ?_
  cases mode with
  | plain => exact extent_plain_le c cs
  | named => exact extent_named_le c cs

end Script

namespace Outline

theorem identifierRun_le (text : List Char) : identifierRun text ≤ text.length := by
  fun_induction identifierRun text with
  | case1 => exact Nat.le_refl 0
  | case2 => exact Nat.zero_le _
  | case3 => exact Nat.zero_le _
  | case4 rest _ _ ih =>
    rw [List.length_cons]
    omega
  | case5 c rest _ _ ih =>
    rw [List.length_cons]
    omega
  | case6 => exact Nat.zero_le _

theorem extent_other_le (c : Char) (cs : List Char) : (other c cs).extent ≤ (c :: cs).length := by
  unfold other
  split
  · exact Nat.succ_le_succ (length_line_le _)
  · cases h : Step.layout? () c cs with
    | some s => exact Step.extent_layout?_le h
    | none => simp

theorem extent_code_le (c : Char) (cs : List Char) : (code c cs).extent ≤ (c :: cs).length := by
  unfold code
  split
  · exact Nat.succ_le_succ (identifierRun_le cs)
  split
  · exact Nat.succ_le_succ (run_le isDigit cs)
  split
  · simp
  split
  · simp [Step.extent, Paint.extent]
  · exact extent_other_le c cs

theorem inRange : grammar.InRange :=
  Grammar.inRange_of_code fun _ c cs => extent_code_le c cs

end Outline

end SplitEditor
