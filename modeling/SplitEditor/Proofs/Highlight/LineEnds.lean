import Mathlib.Data.List.TakeWhile
import SplitEditor.Proofs.Highlight.Extent

/-! No pattern looks past the end of a line, so what comes after a line break makes no difference
to a rule before it. White space is the exception, and a quote in front of a break, which would be
quoted by a second one behind it. -/

namespace SplitEditor

open Pattern

namespace Pattern
variable {p : Char → Bool} {text rest : List Char} {c : Char} {n : Nat}

theorem line_cons_of_ne (h : c ≠ '\n') (text : List Char) : line (c :: text) = c :: line text :=
  List.takeWhile_cons_of_pos (bne_iff_ne.2 h)

theorem line_append (h : '\n' ∈ text) (rest : List Char) : line (text ++ rest) = line text := by
  induction text with
  | nil => cases h
  | cons c text ih =>
    by_cases hc : c = '\n'
    · subst hc
      rfl
    · rw [List.cons_append, line_cons_of_ne hc, line_cons_of_ne hc,
        ih (List.mem_of_ne_of_mem (Ne.symm hc) h)]

theorem line_line (text : List Char) : line (line text) = line text := by
  rw [line, line, List.takeWhile_idem]

theorem drop_line (h : n ≤ (line text).length) : (line text).drop n = line (text.drop n) := by
  induction n generalizing text with
  | zero => rfl
  | succ n ih =>
    cases text with
    | nil => cases h
    | cons c text =>
      by_cases hc : c = '\n'
      · subst hc
        cases h
      · rw [line_cons_of_ne hc] at h ⊢
        exact ih (Nat.le_of_succ_le_succ h)

theorem take_line (h : n ≤ (line text).length) : (line text).take n = text.take n := by
  have hprefix : line text <+: text := List.takeWhile_prefix _
  rw [List.prefix_iff_eq_take.1 hprefix, List.take_take, Nat.min_eq_left h]

/-! ### What the patterns see -/

theorem run_line (hp : p '\n' = false) (text : List Char) : run p (line text) = run p text := by
  induction text with
  | nil => rfl
  | cons c text ih =>
    rw [run, run] at ih ⊢
    by_cases hc : c = '\n'
    · rw [hc, List.takeWhile_cons_of_neg (p := p) (by simp [hp])]
      rfl
    · rw [line_cons_of_ne hc, List.takeWhile_cons, List.takeWhile_cons]
      split
      · rw [List.length_cons, List.length_cons, ih]
      · rfl

theorem take_run_line (hp : p '\n' = false) (text : List Char) :
    (line text).take (run p text) = text.take (run p text) := by
  have hle := run_le p (line text)
  rw [run_line hp] at hle
  exact take_line hle

theorem escapeLength_line (text : List Char) : escapeLength (line text) = escapeLength text := by
  rcases text with _ | ⟨c, _ | ⟨d, text⟩⟩
  · rfl
  · by_cases hc : c = '\n'
    · rw [hc]
      rfl
    · rw [line_cons_of_ne hc]
      rfl
  · by_cases hc : c = '\\'
    · subst hc
      by_cases hd : d = '\n'
      · rw [hd]
        rfl
      · rw [line_cons_of_ne (by decide), line_cons_of_ne hd]
        simp only [escapeLength, fixedEscape, run_line (p := isHexDigit) rfl]
    · have hnone (text : List Char) : escapeLength (c :: text) = none := by
        rw [escapeLength]
        rintro _ _ heq
        exact hc (List.cons.inj heq).1
      rw [hnone]
      by_cases hline : c = '\n'
      · rw [hline]
        rfl
      · rw [line_cons_of_ne hline, hnone]

theorem exponentLength_cons_cons {e : Char} (he : e = 'e' ∨ e = 'E') (c : Char)
    (text : List Char) : exponentLength (e :: c :: text) =
      if c = '-' ∨ c = '+' then if run isDigit text = 0 then 0 else 2 + run isDigit text
      else if run isDigit (c :: text) = 0 then 0 else 1 + run isDigit (c :: text) := by
  by_cases hminus : c = '-'
  · subst hminus
    simp [exponentLength, he]
  by_cases hplus : c = '+'
  · subst hplus
    simp [exponentLength, he]
  · simp [exponentLength, he, hminus, hplus]

theorem exponentLength_cons_of_not {e : Char} (he : ¬(e = 'e' ∨ e = 'E')) (text : List Char) :
    exponentLength (e :: text) = 0 := by
  simp [exponentLength, he]

theorem exponentLength_line (text : List Char) :
    exponentLength (line text) = exponentLength text := by
  have hdigit : isDigit '\n' = false := rfl
  rcases text with _ | ⟨e, text⟩
  · rfl
  by_cases hline : e = '\n'
  · subst hline
    rw [exponentLength_cons_of_not (by decide)]
    rfl
  rw [line_cons_of_ne hline]
  by_cases he : e = 'e' ∨ e = 'E'
  · rcases text with _ | ⟨c, text⟩
    · rfl
    by_cases hc : c = '\n'
    · subst hc
      rw [exponentLength_cons_cons he]
      simp [exponentLength, he, line, run, hdigit]
    · have hrun := run_line hdigit (c :: text)
      rw [line_cons_of_ne hc] at hrun ⊢
      rw [exponentLength_cons_cons he, exponentLength_cons_cons he, hrun, run_line hdigit]
  · rw [exponentLength_cons_of_not he, exponentLength_cons_of_not he]

theorem floatLength_line (text : List Char) : floatLength (line text) = floatLength text := by
  have hdigit : isDigit '\n' = false := rfl
  have hwhole := run_line hdigit text
  have hdrop : (line text).drop (run isDigit text) = line (text.drop (run isDigit text)) :=
    drop_line (hwhole ▸ run_le isDigit (line text))
  rw [floatLength, floatLength, hwhole, hdrop]
  cases hrest : text.drop (run isDigit text) with
  | nil => rfl
  | cons c rest =>
    by_cases hc : c = '.'
    · subst hc
      have hfraction := run_line hdigit rest
      have hexponent : exponentLength ((line rest).drop (run isDigit rest)) =
          exponentLength (rest.drop (run isDigit rest)) := by
        rw [drop_line (hfraction ▸ run_le isDigit (line rest)), exponentLength_line]
      rw [line_cons_of_ne (by decide)]
      simp only [hfraction, hexponent]
    · by_cases hline : c = '\n'
      · subst hline
        simp [line]
      · rw [line_cons_of_ne hline]
        simp [hc]

theorem hexLength_line (text : List Char) : hexLength (line text) = hexLength text := by
  rcases text with _ | ⟨c, _ | ⟨d, text⟩⟩
  · rfl
  · by_cases hc : c = '\n'
    · rw [hc]
      rfl
    · rw [line_cons_of_ne hc]
      rfl
  · by_cases hzero : c = '0'
    · subst hzero
      rw [line_cons_of_ne (by decide)]
      by_cases hd : d = '\n'
      · subst hd
        simp [hexLength, line]
      · rw [line_cons_of_ne hd]
        simp only [hexLength, run_line (p := isHexDigit) rfl]
    · have hnone (text : List Char) : hexLength (c :: text) = none := by
        cases text <;> simp [hexLength, hzero]
      rw [hnone]
      by_cases hc : c = '\n'
      · rw [hc]
        rfl
      · rw [line_cons_of_ne hc, hnone]

theorem unterminatedLength_line (text : List Char) :
    unterminatedLength (line text) = unterminatedLength text := by
  rw [unterminatedLength, unterminatedLength, line_line]

end Pattern

namespace Step
variable {μ : Type}

theorem layout?_line {c : Char} (hc : isBlank c = false) (mode : μ) (cs : List Char) :
    layout? mode c (line cs) = layout? mode c cs := by
  by_cases hslash : c = '/'
  · subst hslash
    rcases cs with _ | ⟨d, cs⟩
    · rfl
    by_cases hd : d = '\n'
    · subst hd
      rfl
    rw [line_cons_of_ne hd]
    by_cases hstar : d = '*'
    · subst hstar
      rfl
    by_cases hopens : d = '/'
    · subst hopens
      have hline : line ('/' :: line cs) = line ('/' :: cs) := by
        rw [line_cons_of_ne (by decide), line_cons_of_ne (by decide), line_line]
      simp only [layout?, hline]
      rfl
    · simp [layout?, hc, hstar, hopens]
  · simp [layout?, hc, hslash]

end Step

namespace Outline

theorem identifierRun_cons {c : Char} (hc : c ≠ '/') (cs : List Char) : identifierRun (c :: cs) =
    if isWord c || c == '$' || c == '.' then 1 + identifierRun cs else 0 := by
  rw [identifierRun]
  exact fun h => absurd h hc

theorem identifierRun_slash (d : Char) (cs : List Char) : identifierRun ('/' :: d :: cs) =
    if d = '/' ∨ d = '*' then 0 else 1 + identifierRun (d :: cs) := by
  by_cases hslash : d = '/'
  · rw [hslash]
    rfl
  by_cases hstar : d = '*'
  · rw [hstar]
    rfl
  simp [identifierRun, hslash, hstar]

theorem identifierRun_line (text : List Char) :
    identifierRun (line text) = identifierRun text := by
  induction text with
  | nil => rfl
  | cons c cs ih =>
    by_cases hc : c = '\n'
    · rw [hc]
      rfl
    rw [line_cons_of_ne hc]
    by_cases hslash : c = '/'
    · subst hslash
      rcases cs with _ | ⟨d, cs⟩
      · rfl
      by_cases hd : d = '\n'
      · rw [hd]
        rfl
      · rw [line_cons_of_ne hd] at ih ⊢
        rw [identifierRun_slash, identifierRun_slash, ih]
    · rw [identifierRun_cons hslash, identifierRun_cons hslash, ih]

theorem other_line {c : Char} (hc : isBlank c = false) (cs : List Char) :
    other c (line cs) = other c cs := by
  have hlayout := Step.layout?_line hc () cs
  by_cases hsemicolon : c = ';'
  · subst hsemicolon
    rcases cs with _ | ⟨d, cs⟩
    · rfl
    by_cases hd : d = '\n'
    · subst hd
      rfl
    rw [line_cons_of_ne hd] at hlayout ⊢
    by_cases hopens : d = ';'
    · subst hopens
      have hline : line (';' :: line cs) = line (';' :: cs) := by
        rw [line_cons_of_ne (by decide), line_cons_of_ne (by decide), line_line]
      simp only [other, hline]
    · simp [other, hopens, hlayout]
  · simp [other, hsemicolon, hlayout]

theorem code_line {c : Char} (hc : isBlank c = false) (cs : List Char) :
    code c (line cs) = code c cs := by
  have hrun := identifierRun_line cs
  have htake : (line cs).take (identifierRun cs) = cs.take (identifierRun cs) :=
    take_line (hrun ▸ identifierRun_le (line cs))
  simp only [code, hrun, htake, run_line (p := isDigit) rfl, other_line hc]

end Outline

namespace Script

theorem escapedLiteral_line (cs : List Char) :
    escapedLiteral (line cs) = escapedLiteral cs := by
  cases hescape : escapeLength cs with
  | none => simp only [escapedLiteral, escapeLength_line, hescape]
  | some n =>
    have hle : n ≤ (line cs).length :=
      (escapeLength_bounds ((escapeLength_line cs).trans hescape)).2
    have hquote : ((line cs).drop n).head? = some '\'' ↔ (cs.drop n).head? = some '\'' := by
      rw [drop_line hle]
      cases cs.drop n with
      | nil => rfl
      | cons d ds =>
        by_cases hd : d = '\n'
        · subst hd
          simp [line]
        · rw [line_cons_of_ne hd]
          rfl
    simp only [escapedLiteral, escapeLength_line, hescape, hquote]

theorem other_line {c : Char} (hc : isBlank c = false) (hquote : c ≠ '\'') (cs : List Char) :
    other c (line cs) = other c cs := by
  have hline : c ≠ '\n' := by
    rintro rfl
    exact absurd hc (by decide)
  have hfloat := floatLength_line (c :: cs)
  have hhex := hexLength_line (c :: cs)
  rw [line_cons_of_ne hline] at hfloat hhex
  have hsymbols := run_line (p := isSymbol) rfl cs
  have htake := take_run_line (p := isSymbol) rfl cs
  simp only [other, hsymbols, htake, hfloat, hhex, run_line (p := isDigit) rfl,
    unterminatedLength_line, if_neg hquote]

theorem plain_line {c : Char} (hc : isBlank c = false) (hquote : c ≠ '\'') (cs : List Char) :
    plain c (line cs) = plain c cs := by
  have hrun := run_line (p := fun d => isWord d || d == '$') rfl cs
  have htake := take_run_line (p := fun d => isWord d || d == '$') rfl cs
  simp only [plain, hrun, htake, Step.layout?_line hc, other_line hc hquote]

theorem named_line {c : Char} (hc : isBlank c = false) (hquote : c ≠ '\'') (cs : List Char) :
    named c (line cs) = named c cs := by
  simp only [named, Step.layout?_line hc, run_line (p := isWord) rfl,
    plain_line hc hquote]

theorem code_line {c : Char} (hc : isBlank c = false) (hquote : c ≠ '\'') (mode : Mode)
    (cs : List Char) : grammar.code mode c (line cs) = grammar.code mode c cs := by
  cases mode with
  | plain => exact plain_line hc hquote cs
  | named => exact named_line hc hquote cs

theorem code_quote (mode : Mode) (cs : List Char) :
    grammar.code mode '\'' cs = charLiteral cs := by
  have hother : other '\'' cs = charLiteral cs := by
    have hfloat : floatLength ('\'' :: cs) = none := rfl
    have hhex : hexLength ('\'' :: cs) = none := rfl
    simp only [other, hfloat, hhex]
    rfl
  cases mode with
  | plain => exact hother
  | named => exact hother

end Script

/-! ### What comes after a line break -/

namespace Pattern

theorem append_of_line {α : Type} {f : List Char → α} (hf : ∀ text, f (line text) = f text)
    {text : List Char} (h : '\n' ∈ text) (rest : List Char) : f (text ++ rest) = f text := by
  rw [← hf, line_append h, hf]

end Pattern

theorem Script.charLiteral_append {cs : List Char} (h : '\n' ∈ cs) (hcs : cs ≠ ['\n'])
    (rest : List Char) : charLiteral (cs ++ rest) = charLiteral cs := by
  have hescaped := append_of_line escapedLiteral_line h rest
  rcases cs with _ | ⟨d, _ | ⟨e, cs⟩⟩
  · cases h
  · exact absurd (congrArg ([·]) (List.mem_singleton.1 h).symm) hcs
  · rw [List.cons_append, List.cons_append] at hescaped ⊢
    by_cases he : e = '\''
    · subst he
      simp only [charLiteral, hescaped]
    · simp [charLiteral, he, hescaped]

/-- No rule for code sees past the text it starts in, white space apart. -/
def Grammar.Settled {μ : Type} (g : Grammar μ) (text : List Char) : Prop :=
  ∀ mode c cs, c :: cs <:+ text → isBlank c = false →
    ∀ rest, g.code mode c (cs ++ rest) = g.code mode c cs

theorem Grammar.Settled.of_suffix {μ : Type} {g : Grammar μ} {text rest : List Char}
    (h : g.Settled text) (hsuffix : rest <:+ text) : g.Settled rest :=
  fun mode c cs hcs => h mode c cs (hcs.trans hsuffix)

theorem newline_mem_of_suffix {text cs : List Char} {c : Char}
    (hline : ['\n'] <:+ text) (hsuffix : c :: cs <:+ text) (hc : isBlank c = false) :
    '\n' ∈ cs := by
  rcases List.suffix_or_suffix_of_suffix hline hsuffix with h | h
  · rcases List.suffix_cons_iff.1 h with heq | h
    · obtain rfl := (List.cons.inj heq).1
      cases hc
    · exact h.subset (List.mem_singleton_self _)
  · rcases List.suffix_cons_iff.1 h with heq | h
    · obtain rfl := (List.cons.inj heq).1
      cases hc
    · cases List.suffix_nil.1 h

theorem Outline.settled {text : List Char} (h : ['\n'] <:+ text) : grammar.Settled text :=
  fun _ _ _ hsuffix hc rest =>
    append_of_line (code_line hc) (newline_mem_of_suffix h hsuffix hc) rest

theorem Script.settled {text : List Char} (h : ['\n'] <:+ text)
    (hquote : ¬['\'', '\n'] <:+ text) : grammar.Settled text := by
  intro mode c cs hsuffix hc rest
  have hmem := newline_mem_of_suffix h hsuffix hc
  by_cases hc' : c = '\''
  · subst hc'
    rw [code_quote, code_quote]
    refine charLiteral_append hmem ?_ rest
    rintro rfl
    exact hquote hsuffix
  · exact append_of_line (code_line hc hc' mode) hmem rest

end SplitEditor
