import SplitEditor.Proofs.Highlight.Strings

/-! What the opening of a comment does to the text in front of it. No pattern takes a slash along,
so a step that ends before the opening is the same whatever the comment holds. The exceptions are
runs that can hold a slash, and these go past the opening. -/

namespace SplitEditor

open Pattern
open Outline (Opens)

theorem Outline.Opens.exists_cons {text : List Char} (h : Opens text) :
    ∃ d rest, text = '/' :: d :: rest ∧ (d = '/' ∨ d = '*') := by
  obtain ⟨rest, rfl⟩ | ⟨rest, rfl⟩ := h
  · exact ⟨'/', rest, rfl, .inl rfl⟩
  · exact ⟨'*', rest, rfl, .inr rfl⟩

namespace Pattern
variable {p : Char → Bool} {text : List Char} {c : Char}

/-! ### Patterns in front of a slash -/

theorem run_eq_length_iff : run p text = text.length ↔ ∀ c ∈ text, p c := by
  constructor
  · intro h
    have htake := forall_mem_take_run p text
    rwa [h, List.take_length] at htake
  · exact fun h => congrArg List.length (List.takeWhile_eq_self_iff.2 h)

theorem run_append_slash (hp : p '/' = false) (text rest : List Char) :
    run p (text ++ '/' :: rest) = run p text := by
  have hnone : ('/' :: rest).takeWhile p = [] := List.takeWhile_cons_of_neg (by simp [hp])
  rw [run, run, List.takeWhile_append, hnone, List.append_nil]
  split
  · next hall => exact hall.symm
  · rfl

theorem take_run_append (p : Char → Bool) (text rest : List Char) :
    (text ++ rest).take (run p text) = text.take (run p text) :=
  List.take_append_of_le_length (run_le p text)

theorem escapeLength_append_slash (text rest : List Char) :
    escapeLength (text ++ '/' :: rest) = escapeLength text := by
  rcases text with _ | ⟨c, _ | ⟨d, text⟩⟩
  · rfl
  · by_cases hc : c = '\\'
    · subst hc
      rfl
    · simp [escapeLength, hc]
  · by_cases hc : c = '\\'
    · subst hc
      simp only [List.cons_append, escapeLength, fixedEscape,
        run_append_slash (p := isHexDigit) rfl]
    · simp [escapeLength, hc]

theorem exponentLength_append_slash (text rest : List Char) :
    exponentLength (text ++ '/' :: rest) = exponentLength text := by
  have hdigit : isDigit '/' = false := rfl
  have hnone (rest : List Char) : run isDigit ('/' :: rest) = 0 := by simp [run, hdigit]
  rcases text with _ | ⟨e, text⟩
  · rfl
  by_cases he : e = 'e' ∨ e = 'E'
  · rcases text with _ | ⟨c, text⟩
    · rw [List.cons_append, List.nil_append, exponentLength_cons_cons he, if_neg (by decide),
        if_pos (hnone rest)]
      simp [exponentLength, he, run]
    · have hrun := run_append_slash hdigit (c :: text) rest
      rw [List.cons_append] at hrun
      rw [List.cons_append, List.cons_append, exponentLength_cons_cons he,
        exponentLength_cons_cons he, hrun, run_append_slash hdigit]
  · rw [List.cons_append, exponentLength_cons_of_not he, exponentLength_cons_of_not he]

theorem floatLength_append_slash (text rest : List Char) :
    floatLength (text ++ '/' :: rest) = floatLength text := by
  have hdigit : isDigit '/' = false := rfl
  have hwhole := run_append_slash hdigit text rest
  have hdrop : (text ++ '/' :: rest).drop (run isDigit text) =
      text.drop (run isDigit text) ++ '/' :: rest :=
    List.drop_append_of_le_length (run_le isDigit text)
  rw [floatLength, floatLength, hwhole, hdrop]
  cases htext : text.drop (run isDigit text) with
  | nil => rfl
  | cons c behind =>
    by_cases hc : c = '.'
    · subst hc
      have hfraction := run_append_slash hdigit behind rest
      have hexponent : exponentLength ((behind ++ '/' :: rest).drop (run isDigit behind)) =
          exponentLength (behind.drop (run isDigit behind)) := by
        rw [List.drop_append_of_le_length (run_le isDigit behind), exponentLength_append_slash]
      simp only [List.cons_append, hfraction, hexponent]
    · simp [hc]

theorem hexLength_append_slash (text rest : List Char) :
    hexLength (text ++ '/' :: rest) = hexLength text := by
  rcases text with _ | ⟨c, _ | ⟨d, text⟩⟩
  · rfl
  · by_cases hc : c = '0'
    · subst hc
      simp [hexLength]
    · simp [hexLength, hc]
  · by_cases hc : c = '0'
    · subst hc
      simp only [List.cons_append, hexLength, run_append_slash (p := isHexDigit) rfl]
    · simp [hexLength, hc]

theorem line_append_of_not_mem (h : '\n' ∉ text) (rest : List Char) :
    line (text ++ rest) = text ++ line rest := by
  refine List.takeWhile_append_of_pos fun c hc => bne_iff_ne.2 ?_
  rintro rfl
  exact h hc

theorem line_of_not_mem (h : '\n' ∉ text) : line text = text := by
  have happend := line_append_of_not_mem h []
  rwa [List.append_nil, line.eq_1 [], List.takeWhile_nil, List.append_nil] at happend

theorem length_line_append (h : '\n' ∉ text) {rest : List Char} (hrest : Opens rest) :
    text.length + 2 ≤ (line (text ++ rest)).length := by
  obtain ⟨d, rest, rfl, hd⟩ := hrest.exists_cons
  have hd' : d ≠ '\n' := by
    rintro rfl
    revert hd
    decide
  rw [line_append_of_not_mem h, line_cons_of_ne (by decide), line_cons_of_ne hd',
    List.length_append, List.length_cons, List.length_cons]
  omega

theorem unterminatedLength_append (h : '\n' ∈ text ∨ ∃ p, QuoteAt text p) (rest : List Char) :
    unterminatedLength (text ++ rest) = unterminatedLength text := by
  by_cases hline : '\n' ∈ text
  · rw [unterminatedLength, unterminatedLength, line_append hline]
  · obtain ⟨p, hp⟩ := h.resolve_left hline
    have hnone : unterminatedLength text = none := by
      rw [unterminatedLength_eq_none_iff, line_of_not_mem hline]
      exact .inl ⟨p, hp.lt, hp⟩
    rw [hnone, unterminatedLength_eq_none_iff, line_append_of_not_mem hline, List.length_append]
    exact .inl ⟨p, Nat.lt_add_right _ hp.lt, (quoteAt_append hp.lt rest).2 hp⟩

end Pattern

/-! ### Layout -/

def Loose (c : Char) (cs : List Char) : Prop :=
  c = '/' ∧ (cs = [] ∨ ['/'] <+: cs ∧ '\n' ∉ cs)

theorem Loose.not_mem {c : Char} {cs : List Char} (h : Loose c cs) : '\n' ∉ cs := by
  rcases h.2 with rfl | h
  · exact List.not_mem_nil
  · exact h.2

theorem opens_append {c : Char} {cs after : List Char} (h : Opens (c :: cs ++ after)) :
    Opens (c :: cs) ∨ Loose c cs := by
  obtain ⟨d, rest, heq, hd⟩ := h.exists_cons
  rcases cs with _ | ⟨e, cs⟩
  · exact .inr ⟨(List.cons.inj heq).1, .inl rfl⟩
  · obtain ⟨rfl, htail⟩ := List.cons.inj heq
    obtain ⟨rfl, -⟩ := List.cons.inj htail
    rcases hd with rfl | rfl
    · exact .inl (.inl (List.prefix_append ['/', '/'] cs))
    · exact .inl (.inr (List.prefix_append ['/', '*'] cs))

namespace Step
variable {μ : Type} {mode : μ} {c : Char} {cs after : List Char}

theorem layout?_append (hafter : Opens after) (h : ¬Loose c cs) (mode : μ) :
    layout? mode c (cs ++ after) = layout? mode c cs := by
  obtain ⟨d, rest, rfl, -⟩ := hafter.exists_cons
  by_cases hblank : isBlank c
  · simp only [layout?, hblank, if_true, run_append_slash (p := isBlank) rfl]
  by_cases hslash : c = '/'
  · subst hslash
    rcases cs with _ | ⟨e, cs⟩
    · exact absurd ⟨rfl, .inl rfl⟩ h
    by_cases hstar : e = '*'
    · subst hstar
      rfl
    by_cases hopens : e = '/'
    · subst hopens
      have hline : '\n' ∈ '/' :: cs := by
        by_contra hmem
        exact h ⟨rfl, .inr ⟨List.prefix_append ['/'] cs, hmem⟩⟩
      have hsame := line_append hline ('/' :: d :: rest)
      rw [List.cons_append] at hsame ⊢
      simp only [layout?, hsame]
      rfl
    · simp [layout?, hblank, hstar, hopens]
  · simp [layout?, hblank, hslash]

theorem layout?_loose (hafter : Opens after) (h : Loose c cs) (mode : μ) :
    layout? mode c (cs ++ after) =
      some (one .comment (line (cs ++ after)).length (.code mode)) := by
  obtain ⟨d, rest, rfl, -⟩ := hafter.exists_cons
  obtain ⟨rfl, rfl | ⟨⟨cs, rfl⟩, -⟩⟩ := h
  · rfl
  · rfl

theorem layout?_eq_none (hblank : isBlank c = false) (hopens : ¬Opens (c :: cs)) (mode : μ) :
    layout? mode c cs = none := by
  by_cases hslash : c = '/'
  · subst hslash
    rcases cs with _ | ⟨d, cs⟩
    · rfl
    have hstar : d ≠ '*' := by
      rintro rfl
      exact hopens (.inr (List.prefix_append ['/', '*'] cs))
    have hline : d ≠ '/' := by
      rintro rfl
      exact hopens (.inl (List.prefix_append ['/', '/'] cs))
    simp [layout?, hblank, hstar, hline]
  · simp [layout?, hblank, hslash]

theorem not_opens_of_layout? (h : layout? mode c cs = none) : ¬Opens (c :: cs) := by
  rintro (⟨rest, heq⟩ | ⟨rest, heq⟩) <;>
  · obtain ⟨rfl, rfl⟩ := List.cons.inj heq
    cases h

theorem length_line_loose (hafter : Opens after) (h : Loose c cs) :
    (c :: cs).length < (line (cs ++ after)).length + 1 := by
  have hle := length_line_append h.not_mem hafter
  rw [List.length_cons]
  omega

end Step

/-! ### Scripts -/

namespace Script
variable {c : Char} {cs after : List Char}

theorem escapedLiteral_append_slash (cs rest : List Char) :
    escapedLiteral (cs ++ '/' :: rest) = escapedLiteral cs := by
  cases hescape : escapeLength cs with
  | none => simp only [escapedLiteral, escapeLength_append_slash, hescape]
  | some n =>
    have hle := (escapeLength_bounds hescape).2
    have hquote : ((cs ++ '/' :: rest).drop n).head? = some '\'' ↔
        (cs.drop n).head? = some '\'' := by
      rw [List.drop_append_of_le_length hle]
      cases cs.drop n <;> simp
    simp only [escapedLiteral, escapeLength_append_slash, hescape, hquote]

theorem charLiteral_append_opening (hafter : Opens after) (cs : List Char) :
    charLiteral (cs ++ after) = charLiteral cs := by
  obtain ⟨d, rest, rfl, hd⟩ := hafter.exists_cons
  have hescaped := escapedLiteral_append_slash cs (d :: rest)
  have hd' : d ≠ '\'' := by
    rintro rfl
    revert hd
    decide
  rcases cs with _ | ⟨a, _ | ⟨b, cs⟩⟩
  · rw [List.nil_append] at hescaped ⊢
    simp [charLiteral, hescaped, hd']
  · rw [List.cons_append, List.nil_append] at hescaped ⊢
    simp [charLiteral, hescaped]
  · rw [List.cons_append, List.cons_append] at hescaped ⊢
    by_cases hb : b = '\''
    · subst hb
      simp only [charLiteral, hescaped]
    · simp [charLiteral, hb, hescaped]

/-- What goes on into a comment that is opened behind it: a run of symbols, a line comment, and a
quote that nothing on its line closes. -/
inductive Overruns : List Char → Prop
  | symbols {w : List Char} (hw : RunOf isSymbol w) (hopens : ¬Opens w) : Overruns w
  | comment {cs : List Char} (hline : '\n' ∉ cs) : Overruns ('/' :: '/' :: cs)
  | string {cs : List Char} (hline : '\n' ∉ cs) (hquote : ∀ p, ¬QuoteAt cs p) :
    Overruns ('"' :: cs)

theorem not_loose (h : ¬Overruns (c :: cs)) : ¬Loose c cs := by
  rintro ⟨rfl, rfl | ⟨⟨cs, rfl⟩, hline⟩⟩
  · refine h (.symbols (.intro rfl (by simp)) ?_)
    rintro (hopens | hopens) <;> exact absurd hopens.length_le (by decide)
  · exact h (.comment fun hmem => hline (List.mem_cons_of_mem _ hmem))

theorem other_append (hafter : Opens after)
    (hsymbols : isSymbol c → run isSymbol cs < cs.length)
    (hquote : c = '"' → '\n' ∈ cs ∨ ∃ p, QuoteAt cs p) : other c (cs ++ after) = other c cs := by
  have hliteral := charLiteral_append_opening hafter cs
  obtain ⟨d, rest, rfl, -⟩ := hafter.exists_cons
  unfold other
  by_cases hsymbol : isSymbol c
  · have hrun := run_append_of_lt (hsymbols hsymbol) ('/' :: d :: rest)
    have htake := take_run_append isSymbol cs ('/' :: d :: rest)
    simp only [hsymbol, if_true, hrun, htake]
  by_cases hstring : c = '"'
  · have hline := unterminatedLength_append (hquote hstring) ('/' :: d :: rest)
    subst hstring
    simp only [hline]
    rfl
  · have hfloat := floatLength_append_slash (c :: cs) (d :: rest)
    have hhex := hexLength_append_slash (c :: cs) (d :: rest)
    rw [List.cons_append] at hfloat hhex
    simp only [if_neg hsymbol, if_neg hstring, hfloat, hhex, hliteral,
      run_append_slash (p := isDigit) rfl]

theorem plain_append (hafter : Opens after) (h : ¬Overruns (c :: cs)) :
    plain c (cs ++ after) = plain c cs := by
  have hlayout := Step.layout?_append hafter (not_loose h) Mode.plain
  unfold plain
  split
  · obtain ⟨d, rest, rfl, -⟩ := hafter.exists_cons
    have hrun := run_append_slash (p := fun d => isWord d || d == '$') rfl cs (d :: rest)
    have htake := take_run_append (fun d => isWord d || d == '$') cs ('/' :: d :: rest)
    simp only [hrun, htake]
  · rw [hlayout]
    cases hsome : Step.layout? Mode.plain c cs with
    | some s => rfl
    | none =>
      refine other_append hafter (fun hc => ?_) ?_
      · -- were all of it symbols, it would overrun, since no comment opens here
        have hopens := Step.not_opens_of_layout? hsome
        exact (run_le isSymbol cs).lt_of_ne fun hall =>
          h (.symbols (.intro hc (run_eq_length_iff.1 hall)) hopens)
      · rintro rfl
        by_contra hnone
        rw [not_or, not_exists] at hnone
        exact h (.string hnone.1 hnone.2)

theorem code_append (hafter : Opens after) (h : ¬Overruns (c :: cs)) (mode : Mode) :
    grammar.code mode c (cs ++ after) = grammar.code mode c cs := by
  cases mode with
  | plain => exact plain_append hafter h
  | named =>
    have hlayout := Step.layout?_append hafter (not_loose h) Mode.named
    have hplain := plain_append hafter h
    show named c (cs ++ after) = named c cs
    obtain ⟨d, rest, rfl, -⟩ := hafter.exists_cons
    simp only [named, hlayout, hplain, run_append_slash (p := isWord) rfl]

theorem code_loose (hafter : Opens after) (h : Loose c cs) (mode : Mode) :
    grammar.code mode c (cs ++ after) =
      .one .comment (line (cs ++ after)).length (.code mode) := by
  have hlayout := Step.layout?_loose hafter h mode
  obtain rfl := h.1
  cases mode with
  | plain =>
    show (Step.layout? Mode.plain '/' (cs ++ after)).getD _ = _
    rw [hlayout]
    rfl
  | named =>
    show named '/' (cs ++ after) = _
    rw [named, hlayout]

theorem code_symbol (hc : isSymbol c) (hopens : ¬Opens (c :: cs)) (mode : Mode) :
    grammar.code mode c cs = .one
      (if String.ofList (c :: cs.take (run isSymbol cs)) ∈ operators then .operator else .text)
      (run isSymbol cs) (.code .plain) := by
  have huntaken := isTaken_of_isSymbol hc
  simp only [isTaken, Bool.or_eq_false_iff, Option.isSome_eq_false_iff, Option.isNone_iff_eq_none]
    at huntaken
  obtain ⟨⟨⟨⟨⟨⟨hlower, hunderscore⟩, hdollar⟩, hblank⟩, hbracket⟩, -⟩, -⟩ := huntaken
  have hupper : (isLetter c || c == '_') = false := by
    have hsymbols : ['=', '>', '<', '!', '~', '?', ':', '&', '|', '.', '+', '-', '*', '/', '^',
        '%'].all (fun c => !(isLetter c || c == '_')) := by decide
    simpa using List.all_eq_true.1 hsymbols c (of_decide_eq_true hc)
  have hplain : plain c cs = .one
      (if String.ofList (c :: cs.take (run isSymbol cs)) ∈ operators then .operator else .text)
      (run isSymbol cs) (.code .plain) := by
    rw [plain, Step.layout?_eq_none hblank hopens]
    simp [hlower, hunderscore, hdollar, other, hbracket, hc]
  cases mode with
  | plain => exact hplain
  | named =>
    show named c cs = _
    rw [named, Step.layout?_eq_none hblank hopens]
    simp only [hupper, Bool.false_eq_true, if_false, hplain]

theorem code_overruns (hafter : Opens after) (h : Overruns (c :: cs)) (mode : Mode) :
    (c :: cs).length < (grammar.code mode c (cs ++ after)).extent ∨
      grammar.code mode c (cs ++ after) = .one .stringQuote 0 (.string .plain) ∧
        ∀ p, ¬QuoteAt cs p := by
  by_cases hloose : Loose c cs
  · left
    rw [code_loose hafter hloose, Step.extent_one]
    exact Step.length_line_loose hafter hloose
  cases h with
  | symbols hw hopens =>
    left
    have hnone : ¬Opens (c :: (cs ++ after)) := fun hopens' =>
      (opens_append hopens').elim hopens hloose
    obtain ⟨hc, hcs⟩ := List.forall_mem_cons.1 hw.all
    have hall : run isSymbol cs = cs.length := run_eq_length_iff.2 hcs
    obtain ⟨d, rest, rfl, hd⟩ := hafter.exists_cons
    have hd : isSymbol d := by rcases hd with rfl | rfl <;> rfl
    have hpos : 2 ≤ run isSymbol ('/' :: d :: rest) := by
      rw [run_cons_of_pos (p := isSymbol) rfl, run_cons_of_pos hd]
      omega
    have hrun := run_append_of_length hall ('/' :: d :: rest)
    rw [code_symbol hc hnone, Step.extent_one, List.length_cons]
    omega
  | comment hline =>
    exact absurd ⟨rfl, .inr ⟨List.prefix_append ['/'] _, by simpa using hline⟩⟩ hloose
  | string hline hquote =>
    rw [code_doubleQuote]
    split
    · exact .inr ⟨rfl, hquote⟩
    · left
      have hle := length_line_append hline hafter
      rw [Step.extent_one, List.length_cons]
      omega

end Script

/-! ### Steps that end before a comment -/

namespace Grammar
variable {μ : Type} {g : Grammar μ} {state next last : State μ} {mode : μ}
  {c : Char} {cs after after' : List Char} {xs : List Lexeme}

def HeedsOpening (g : Grammar μ) : Prop :=
  ∀ mode c cs after after', Opens after → Opens after' →
    (g.code mode c (cs ++ after)).extent ≤ (c :: cs).length →
    (∀ mode', (g.code mode c (cs ++ after)).next = .string mode' →
      ∃ p, QuoteAt (lay (g.code mode c (cs ++ after)).paints (c :: cs)).2 p) →
    g.code mode c (cs ++ after') = g.code mode c (cs ++ after)

end Grammar

theorem Script.heedsOpening : grammar.HeedsOpening := by
  intro mode c cs after after' hafter hafter' hextent hstring
  have hends : ¬Overruns (c :: cs) := by
    intro h
    rcases code_overruns hafter h mode with hlt | ⟨hcode, hquote⟩
    · exact absurd hextent (Nat.not_le_of_lt hlt)
    · rw [hcode] at hstring
      obtain ⟨p, hp⟩ := hstring .plain rfl
      exact hquote p hp
  rw [code_append hafter' hends, code_append hafter hends]

namespace Outline
variable {c : Char} {cs after after' : List Char}

theorem identifierRun_append_opening (hafter : Opens after) (hafter' : Opens after')
    (cs : List Char) : identifierRun (cs ++ after') = identifierRun (cs ++ after) ∧
      identifierRun (cs ++ after) ≤ cs.length := by
  induction cs with
  | nil =>
    rw [List.nil_append, List.nil_append, identifierRun_of_opens hafter,
      identifierRun_of_opens hafter']
    exact ⟨rfl, Nat.le_refl 0⟩
  | cons c cs ih =>
    by_cases hslash : c = '/'
    · subst hslash
      rcases cs with _ | ⟨d, cs⟩
      · obtain ⟨d, rest, rfl, -⟩ := hafter.exists_cons
        obtain ⟨d', rest', rfl, -⟩ := hafter'.exists_cons
        exact ⟨rfl, Nat.zero_le _⟩
      · simp only [List.cons_append, identifierRun_slash, List.length_cons] at ih ⊢
        split
        · exact ⟨rfl, Nat.zero_le _⟩
        · rw [ih.1]
          exact ⟨rfl, by omega⟩
    · rw [List.cons_append, List.cons_append, identifierRun_cons hslash, identifierRun_cons hslash,
        ih.1, List.length_cons]
      split
      · exact ⟨rfl, by omega⟩
      · exact ⟨rfl, Nat.zero_le _⟩

theorem other_append (hafter : Opens after) (hafter' : Opens after')
    (hextent : (other c (cs ++ after)).extent ≤ (c :: cs).length) :
    other c (cs ++ after') = other c (cs ++ after) := by
  have hloose : ¬Loose c cs := by
    intro h
    have hlayout := Step.layout?_loose hafter h ()
    have hlength := Step.length_line_loose hafter h
    obtain rfl := h.1
    have hother : other '/' (cs ++ after) =
        .one .comment (line (cs ++ after)).length (.code ()) := by
      simp [other, hlayout]
    rw [hother, Step.extent_one] at hextent
    omega
  have hlayout : Step.layout? () c (cs ++ after') = Step.layout? () c (cs ++ after) := by
    rw [Step.layout?_append hafter' hloose, Step.layout?_append hafter hloose]
  by_cases hsemicolon : c = ';'
  · subst hsemicolon
    rcases cs with _ | ⟨d, cs⟩
    · obtain ⟨d, rest, rfl, -⟩ := hafter.exists_cons
      obtain ⟨d', rest', rfl, -⟩ := hafter'.exists_cons
      exact congrArg (Option.getD · _) hlayout
    by_cases hd : d = ';'
    · subst hd
      have hline : '\n' ∈ ';' :: cs := by
        by_contra hmem
        have hlength := length_line_append hmem hafter
        have hother : other ';' (';' :: cs ++ after) =
            .one .comment (line (';' :: cs ++ after)).length (.code ()) := rfl
        rw [hother, Step.extent_one, List.length_cons] at hextent
        omega
      have hsame := (line_append hline after').trans (line_append hline after).symm
      rw [List.cons_append, List.cons_append] at hsame ⊢
      simp only [other, hsame]
    · rw [List.cons_append, List.cons_append] at hlayout ⊢
      simp [other, hd, hlayout]
  · simp [other, hsemicolon, hlayout]

theorem heedsOpening : grammar.HeedsOpening := by
  intro mode c cs after after' hafter hafter' hextent _
  obtain ⟨hrun, hle⟩ := identifierRun_append_opening hafter hafter' cs
  show code c (cs ++ after') = code c (cs ++ after)
  replace hextent : (code c (cs ++ after)).extent ≤ (c :: cs).length := hextent
  unfold code at hextent ⊢
  split
  · simp only [hrun, List.take_append_of_le_length hle]
  next hword =>
  split
  · obtain ⟨d, rest, rfl, -⟩ := hafter.exists_cons
    obtain ⟨d', rest', rfl, -⟩ := hafter'.exists_cons
    rw [run_append_slash (p := isDigit) rfl, run_append_slash (p := isDigit) rfl]
  next hdigit =>
  split
  · rfl
  next hquote =>
  split
  · rfl
  next hbracket =>
  refine other_append hafter hafter' ?_
  simpa only [if_neg hword, if_neg hdigit, if_neg hquote, hbracket] using hextent

end Outline

/-! ### Runs that end before a comment -/

namespace Step
variable {μ : Type}

theorem inString_opening (mode : μ) (c : Char) (cs : List Char) :
    (∀ after, Opens after → inString mode c (cs ++ after) = inString mode c cs) ∨
      (∃ kind, inString mode c cs = one kind cs.length (.string mode)) ∧
        ∀ after, Opens after → (c :: cs).length < (inString mode c (cs ++ after)).extent := by
  by_cases hquote : c = '"'
  · simp [inString, hquote]
  by_cases hescape : c = '\\'
  · subst hescape
    have hmin (d : Char) (cs : List Char) : min 1 (d :: cs).length = 1 :=
      Nat.min_eq_left (Nat.succ_le_succ (Nat.zero_le _))
    cases cs with
    | nil =>
      refine .inr ⟨⟨.stringEscapeInvalid, rfl⟩, fun after hafter => ?_⟩
      obtain ⟨d, rest, rfl, -⟩ := hafter.exists_cons
      have hstep : inString mode '\\' ('/' :: d :: rest) =
          one .stringEscapeInvalid (min 1 ('/' :: d :: rest).length) (.string mode) := rfl
      rw [List.nil_append, hstep, hmin, extent_one]
      exact Nat.lt_succ_self 1
    | cons d cs =>
      left
      intro after hafter
      obtain ⟨e, rest, rfl, -⟩ := hafter.exists_cons
      have hlength := escapeLength_append_slash ('\\' :: d :: cs) (e :: rest)
      rw [List.cons_append, List.cons_append] at hlength
      rw [List.cons_append]
      simp only [inString, if_neg hquote, if_true, hlength, hmin]
  · have hbody (cs : List Char) : inString mode c cs =
        one .string (run (fun d => d != '"' && d != '\\') cs) (.string mode) := by
      simp [inString, hquote, hescape]
    simp only [hbody, extent_one]
    rcases (run_le (fun d => d != '"' && d != '\\') cs).lt_or_eq with hlt | heq
    · exact .inl fun after _ => by rw [run_append_of_lt hlt]
    · refine .inr ⟨⟨.string, by rw [heq]⟩, fun after hafter => ?_⟩
      obtain ⟨d, rest, rfl, -⟩ := hafter.exists_cons
      rw [run_append_of_length heq, run_cons_of_pos rfl, List.length_cons]
      omega

theorem inComment_opening (mode : μ) (outer : Nat) (c : Char) (cs : List Char) :
    (∀ after, Opens after → inComment mode outer c (cs ++ after) = inComment mode outer c cs) ∨
      inComment mode outer c cs = one .comment cs.length (.comment mode outer) ∧ ∀ after,
        Opens after → (c :: cs).length < (inComment mode outer c (cs ++ after)).extent := by
  by_cases hmark : c = '/' ∨ c = '*'
  · cases cs with
    | nil =>
      rcases hmark with rfl | rfl
      · left
        intro after hafter
        obtain ⟨d, rest, rfl, -⟩ := hafter.exists_cons
        rfl
      · refine .inr ⟨rfl, fun after hafter => ?_⟩
        obtain ⟨d, rest, rfl, -⟩ := hafter.exists_cons
        exact Nat.lt_succ_self 1
    | cons d cs =>
      left
      intro after _
      rcases hmark with rfl | rfl
      · rw [List.cons_append, inComment_slash, inComment_slash]
      · rw [List.cons_append, inComment_star, inComment_star]
  · left
    intro after hafter
    obtain ⟨d, rest, rfl, -⟩ := hafter.exists_cons
    have hbody (cs : List Char) : inComment mode outer c cs =
        one .comment (run (fun d => d != '/' && d != '*') cs) (.comment mode outer) := by
      rw [not_or] at hmark
      simp [inComment, hmark]
    rw [hbody, hbody, run_append_slash rfl]

end Step

namespace Grammar
variable {μ : Type} {g : Grammar μ} {state next : State μ} {mode : μ} {c : Char}
  {before cs after after' : List Char} {xs ys : List Lexeme}

theorem Run.exchange (hrange : g.InRange) (hheeds : g.HeedsOpening) (hafter : Opens after)
    (hafter' : Opens after') (h : g.Run state (before ++ after) xs (.code mode) after) :
    g.Run state (before ++ after') xs (.code mode) after' := by
  induction before using reading_induction generalizing state xs with
  | nil =>
    obtain ⟨rfl, rfl⟩ := h.eq_of_refl hrange
    exact .refl _ _
  | cons c cs ih =>
    obtain ⟨s, ys, hstep, hextent, rfl, hrun⟩ := h.first_within hrange
    have hsuffix : (lay s.paints (c :: cs)).2 <:+ cs :=
      (lay_suffix s.others _).trans (List.drop_suffix s.first.more cs)
    refine .head_append ?_ hextent (ih _ hsuffix hrun)
    subst hstep
    cases state with
    | code mode' =>
      refine hheeds mode' c cs after after' hafter hafter' hextent fun mode'' hstring => ?_
      replace hstring : (g.step (.code mode') c (cs ++ after)).next = .string mode'' := hstring
      rw [hstring] at hrun
      exact hrun.exists_quoteAt hrange
    | string mode' =>
      rcases Step.inString_opening mode' c cs with hsame | ⟨-, hlt⟩
      · exact (hsame _ hafter').trans (hsame _ hafter).symm
      · exact absurd hextent (Nat.not_le_of_lt (hlt _ hafter))
    | comment mode' outer =>
      rcases Step.inComment_opening mode' outer c cs with hsame | ⟨-, hlt⟩
      · exact (hsame _ hafter').trans (hsame _ hafter).symm
      · exact absurd hextent (Nat.not_le_of_lt (hlt _ hafter))

end Grammar

end SplitEditor
