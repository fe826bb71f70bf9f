import SplitEditor.Proofs.Highlight.Rules

/-! Whether a comment is recognized where code stands in front of it. A run of symbols takes the
opening along, and nothing else does: a single slash becomes a line comment with it. -/

namespace SplitEditor

open Pattern
open Outline (Opens)

namespace Lexeme
variable {x y : Lexeme} {xs ys : List Lexeme}

def EndsInSymbols (x : Lexeme) : Prop :=
  x.kind = .operator ∨ x.kind = .text ∧ ∃ c ∈ x.text.getLast?, Script.isSymbol c

theorem not_endsInSymbols (hoperator : x.kind ≠ .operator) (htext : x.kind ≠ .text) :
    ¬x.EndsInSymbols := by
  rintro (h | ⟨h, -⟩)
  · exact hoperator h
  · exact htext h

theorem endsInSymbols_append {kind : TokenKind} {scope scope' : String} {w : List Char}
    (hw : w ≠ []) (v : List Char) :
    EndsInSymbols ⟨kind, scope, v ++ w⟩ ↔ EndsInSymbols ⟨kind, scope', w⟩ := by
  rw [EndsInSymbols, EndsInSymbols, List.getLast?_append_of_ne_nil v hw]

theorem exists_getLast?_join (x : Lexeme) (h : ys.getLast? = some y) :
    ∃ w, (join x ys).getLast? = some ⟨y.kind, y.scope, w ++ y.text⟩ := by
  cases ys with
  | nil => cases h
  | cons z zs =>
    rw [join]
    split
    · next hsame =>
      cases zs with
      | nil =>
        obtain rfl : z = y := Option.some.inj h
        refine ⟨x.text, ?_⟩
        rw [List.getLast?_singleton, hsame.1, hsame.2]
      | cons z' zs => exact ⟨[], h⟩
    · exact ⟨[], h⟩

theorem exists_getLast?_joined (h : xs.getLast? = some x) :
    ∃ w, (joined xs).getLast? = some ⟨x.kind, x.scope, w ++ x.text⟩ := by
  induction xs with
  | nil => cases h
  | cons y xs ih =>
    cases xs with
    | nil =>
      obtain rfl : y = x := Option.some.inj h
      exact ⟨[], rfl⟩
    | cons z xs =>
      obtain ⟨w, hw⟩ := ih h
      obtain ⟨v, hv⟩ := exists_getLast?_join y hw
      refine ⟨v ++ w, ?_⟩
      rw [joined_cons, hv, List.append_assoc]

end Lexeme

namespace Token

def Paints (tokens : List Token) (start count : Nat) (kind : TokenKind) : Prop :=
  ((kinds tokens).drop start).take count = List.replicate count kind

end Token

namespace Grammar
variable {μ : Type} {g : Grammar μ} {state next last : State μ} {source text : List Char}
  {xs : List Lexeme} {x : Lexeme} {c : Char} {cs : List Char} {kind : TokenKind}
  {more count : Nat}

theorem exists_getLast?_tokens (h : (g.lexemes (.code g.start) text).getLast? = some x) :
    ∃ w, ∃ t ∈ (g.tokens text).getLast?, t.lexeme = ⟨x.kind, x.scope, w ++ x.text⟩ := by
  obtain ⟨w, hw⟩ := Lexeme.exists_getLast?_joined h
  rw [← map_lexeme_tokens, List.getLast?_map] at hw
  obtain ⟨t, ht, hlexeme⟩ := Option.map_eq_some_iff.1 hw
  exact ⟨w, t, ht, hlexeme⟩

theorem Run.getLast?_lexemes (h : g.Run state text xs next (c :: cs))
    (hstep : g.step next c cs = .one kind cs.length last) :
    (g.lexemes state text).getLast? = some (.of kind (c :: cs)) := by
  have hrun := h.trans (.one kind cs.length hstep)
  rw [List.take_length, List.drop_length] at hrun
  rw [hrun.lexemes_eq, lexemes, List.append_nil, List.getLast?_append]
  rfl

theorem Run.paints (h : g.Run (.code g.start) source xs state (c :: cs))
    (hstep : g.step state c cs = .one kind more next) (hmore : more ≤ cs.length) (start : Nat)
    (hle : start + count ≤ more + 1) :
    Token.Paints (g.tokens source) ((xs.flatMap Lexeme.text).length + start) count kind := by
  have hkinds := (h.trans (.one kind more hstep)).kinds_eq
  have hlaid : Lexeme.kinds [.of kind (c :: cs.take more)] = List.replicate (more + 1) kind := by
    simp [Lexeme.kinds, Lexeme.of, hmore]
  have hlength : start ≤ (List.replicate (more + 1) kind).length := by
    rw [List.length_replicate]
    omega
  have hcount : count ≤ (List.replicate (more + 1 - start) kind).length := by
    rw [List.length_replicate]
    omega
  rw [Token.Paints, hkinds, Lexeme.kinds_append, hlaid, List.append_assoc, ← Lexeme.length_kinds,
    List.drop_length_add_append, List.drop_append_of_le_length hlength, List.drop_replicate,
    List.take_append_of_le_length hcount, List.take_replicate, Nat.min_eq_left (by omega)]

end Grammar

namespace Script
variable {text after : List Char} {state : State Mode} {mode : Mode} {c : Char} {cs : List Char}

theorem wordKind_ne (word : String) : wordKind word ≠ .operator ∧ wordKind word ≠ .text := by
  unfold wordKind
  split_ifs <;> decide

theorem not_endsInSymbols_of_paints {s : Step Mode}
    (h : ∀ p ∈ s.paints, p.kind ≠ .operator ∧ p.kind ≠ .text) :
    ∀ x ∈ (Grammar.lay s.paints text).1, ¬x.EndsInSymbols := by
  intro x hx
  obtain ⟨p, hp, hkind⟩ := Grammar.exists_paint_of_mem_lay hx
  exact Lexeme.not_endsInSymbols (hkind ▸ (h p hp).1) (hkind ▸ (h p hp).2)

theorem not_endsInSymbols_of_one {kind : TokenKind} {more : Nat} {next : State Mode}
    (h : kind ≠ .operator ∧ kind ≠ .text) :
    ∀ x ∈ (Grammar.lay (Step.one kind more next).paints text).1, ¬x.EndsInSymbols :=
  not_endsInSymbols_of_paints fun _ hp => List.mem_singleton.1 hp ▸ h

theorem Rule.endsInSymbols {s : Step Mode} (h : Rule mode c cs s) :
    (isSymbol c ∧ ¬Opens (c :: cs) ∧ s.extent = run isSymbol cs + 1) ∨
      ∀ x ∈ (Grammar.lay s.paints (c :: cs)).1, ¬x.EndsInSymbols := by
  cases h with
  | layout h =>
    right
    obtain ⟨more, rfl⟩ | ⟨more, next, rfl, -⟩ := Step.layout?_eq_some h
    · exact not_endsInSymbols_of_one (by decide)
    · exact not_endsInSymbols_of_one (by decide)
  | name => exact .inr (not_endsInSymbols_of_one (by decide))
  | @word word => exact .inr (not_endsInSymbols_of_one (wordKind_ne word))
  | symbols hc hopens => exact .inl ⟨hc, hopens, Step.extent_one _ _ _⟩
  | unmatched hc =>
    right
    intro x hx
    obtain rfl := List.mem_singleton.1 hx
    rintro (h | ⟨-, d, hd, hsymbol⟩)
    · cases h
    · obtain rfl : c = d := Option.some.inj hd
      exact absurd hsymbol (Bool.eq_false_iff.1 hc)
  | other hkinds =>
    have hother : ∀ kind ∈ otherKinds, kind ≠ .operator ∧ kind ≠ .text := by decide
    exact .inr (not_endsInSymbols_of_paints fun p hp => hother p.kind (hkinds p hp))

theorem step_endsInSymbols (state : State Mode) (c : Char) (cs : List Char) :
    (∃ mode, state = .code mode ∧ isSymbol c ∧ ¬Opens (c :: cs) ∧
      (grammar.step state c cs).extent = run isSymbol cs + 1) ∨
    ∀ x ∈ (Grammar.lay (grammar.step state c cs).paints (c :: cs)).1, ¬x.EndsInSymbols := by
  cases state with
  | code mode => exact (rule_code mode c cs).endsInSymbols.imp (fun h => ⟨mode, rfl, h⟩) id
  | string mode =>
    right
    obtain ⟨kind, more, next, hstep, hkind, -⟩ := Step.inString_eq mode c cs
    have hbody : ∀ kind ∈ TokenKind.stringQuote :: bodyKinds,
        kind ≠ .operator ∧ kind ≠ .text := by decide
    rw [show grammar.step (.string mode) c cs = _ from hstep]
    exact not_endsInSymbols_of_one (hbody kind hkind)
  | comment mode outer =>
    right
    obtain ⟨more, next, hstep, -⟩ := Step.inComment_eq mode outer c cs
    rw [show grammar.step (.comment mode outer) c cs = _ from hstep]
    exact not_endsInSymbols_of_one (by decide)

theorem last_not_endsInSymbols (hover : ∀ mode, state = .code mode → ¬Overruns (c :: cs))
    (hlast : (Grammar.lay (grammar.step state c cs).paints (c :: cs)).2 = []) :
    ∀ x ∈ (Grammar.lay (grammar.step state c cs).paints (c :: cs)).1, ¬x.EndsInSymbols := by
  refine (step_endsInSymbols state c cs).resolve_left ?_
  rintro ⟨mode, rfl, hc, hopens, hextent⟩
  have hlength := Grammar.length_lay_paints (inRange (.code mode) c cs)
  rw [hlast, hextent, List.length_nil, List.length_cons, Nat.zero_add] at hlength
  exact hover mode rfl (.symbols (.intro hc (run_eq_length_iff.1 (Nat.succ.inj hlength))) hopens)

theorem exists_run_to_opening (hafter : Opens after)
    (hend : grammar.ending state text = .code mode) :
    (grammar.Run state (text ++ after) (grammar.lexemes state text) (.code mode) after ∧
      ∀ x ∈ (grammar.lexemes state text).getLast?, ¬x.EndsInSymbols) ∨
    ∃ mode' xs c cs, Overruns (c :: cs) ∧
      grammar.Run state (text ++ after) xs (.code mode') (c :: cs ++ after) ∧
      grammar.Run state text xs (.code mode') (c :: cs) := by
  fun_induction Grammar.ending grammar state text with
  | case1 state =>
    subst hend
    rw [Grammar.lexemes]
    exact .inl ⟨.refl _ _, by simp⟩
  | case2 state c cs step ih =>
    have hextent : step.extent ≤ (c :: cs).length := inRange state c cs
    by_cases hover : ∃ mode', state = .code mode' ∧ Overruns (c :: cs)
    · obtain ⟨mode', rfl, hover⟩ := hover
      exact .inr ⟨mode', [], c, cs, hover, .refl _ _, .refl _ _⟩
    have hstep : grammar.step state c (cs ++ after) = step := by
      have hend' : grammar.ending state (c :: cs) = .code mode := by
        rw [Grammar.ending_cons]
        exact hend
      cases state with
      | code mode' => exact code_append hafter (fun h => hover ⟨mode', rfl, h⟩) mode'
      | string mode' =>
        rcases Step.inString_opening mode' c cs with hsame | ⟨⟨kind, hall⟩, -⟩
        · exact hsame after hafter
        · have hstring : grammar.ending (.string mode') (c :: cs) = .string mode' :=
            Grammar.ending_of_one hall
          cases hstring.symm.trans hend'
      | comment mode' outer =>
        rcases Step.inComment_opening mode' outer c cs with hsame | ⟨hall, -⟩
        · exact hsame after hafter
        · have hcomment : grammar.ending (.comment mode' outer) (c :: cs) = .comment mode' outer :=
            Grammar.ending_of_one hall
          cases hcomment.symm.trans hend'
    rcases ih hend with ⟨hrun, hlast⟩ | ⟨mode', xs, d, ds, hover', hrun, hrun'⟩
    · left
      rw [Grammar.lexemes_cons]
      refine ⟨.head_append hstep hextent hrun, fun x hx => ?_⟩
      rw [List.getLast?_append] at hx
      cases hrest : (grammar.lexemes step.next (Grammar.lay step.paints (c :: cs)).2).getLast? with
      | some y =>
        rw [hrest, Option.some_or] at hx
        exact hlast x (hrest.trans hx)
      | none =>
        have hnil : (Grammar.lay step.paints (c :: cs)).2 = [] := by
          rw [← grammar.flatMap_text_lexemes step.next (Grammar.lay step.paints (c :: cs)).2,
            List.getLast?_eq_none_iff.1 hrest, List.flatMap_nil]
        rw [hrest, Option.none_or] at hx
        exact last_not_endsInSymbols (fun mode' hmode h => hover ⟨mode', hmode, h⟩) hnil x
          (List.mem_of_getLast? hx)
    · refine .inr ⟨mode', _, d, ds, hover', .head_append hstep hextent hrun, .head step rfl hrun'⟩

/-! ### Where a comment is recognized -/

def EndsInSymbols (tokens : List Token) : Prop :=
  ∃ t ∈ tokens.getLast?, t.lexeme.EndsInSymbols ∧ t.text ≠ ['/']

/-- What the opening of a comment is met with: code, a slash or a line comment, or symbols. -/
inductive Meeting (text after : List Char) : Prop
  | code {xs : List Lexeme} {mode : Mode} (htext : xs.flatMap Lexeme.text = text)
    (hrun : grammar.Run (.code .plain) (text ++ after) xs (.code mode) after)
    (hends : ¬EndsInSymbols (grammar.tokens text))
  | comment {xs : List Lexeme} {mode : Mode} {c : Char} {cs : List Char}
    (htext : xs.flatMap Lexeme.text ++ c :: cs = text)
    (hrun : grammar.Run (.code .plain) (text ++ after) xs (.code mode) (c :: cs ++ after))
    (hloose : Loose c cs) (hends : ¬EndsInSymbols (grammar.tokens text))
  | symbols {xs : List Lexeme} {mode : Mode} {c : Char} {cs : List Char}
    (htext : xs.flatMap Lexeme.text ++ c :: cs = text)
    (hrun : grammar.Run (.code .plain) (text ++ after) xs (.code mode) (c :: cs ++ after))
    (hw : RunOf isSymbol (c :: cs)) (hopens : ¬Opens (c :: cs ++ after))
    (hends : EndsInSymbols (grammar.tokens text))

section LastToken
variable {x : Lexeme}

theorem not_endsInSymbols_tokens
    (h : ∀ x ∈ (grammar.lexemes (.code .plain) text).getLast?, ¬x.EndsInSymbols) :
    ¬EndsInSymbols (grammar.tokens text) := by
  rintro ⟨t, ht, hsymbols, -⟩
  cases hx : (grammar.lexemes (.code .plain) text).getLast? with
  | none =>
    have hnil : grammar.tokens text = [] := by
      have hlexemes : grammar.lexemes (.code grammar.start) text = [] :=
        List.getLast?_eq_none_iff.1 hx
      rw [Grammar.tokens, hlexemes]
      rfl
    rw [hnil] at ht
    cases ht
  | some x =>
    obtain ⟨w, t', ht', hlexeme⟩ := grammar.exists_getLast?_tokens hx
    obtain rfl : t = t' := Option.some.inj (ht.symm.trans ht')
    have hne := grammar.lexemes_nonempty (.code .plain) text x (List.mem_of_getLast? hx)
    rw [hlexeme, Lexeme.endsInSymbols_append hne] at hsymbols
    exact h x hx hsymbols

theorem endsInSymbols_tokens (hx : (grammar.lexemes (.code .plain) text).getLast? = some x)
    (hsymbols : x.EndsInSymbols) (hne : x.text ≠ []) (hslash : x.text ≠ ['/']) :
    EndsInSymbols (grammar.tokens text) := by
  obtain ⟨w, t, ht, hlexeme⟩ := grammar.exists_getLast?_tokens hx
  refine ⟨t, ht, ?_, fun htext => hslash ?_⟩
  · rw [hlexeme]
    exact (Lexeme.endsInSymbols_append hne w).2 hsymbols
  · have heq : w ++ x.text = ['/'] := (congrArg Lexeme.text hlexeme).symm.trans htext
    rcases List.append_eq_singleton_iff.1 heq with ⟨-, htext⟩ | ⟨-, htext⟩
    · exact htext
    · exact absurd htext hne

theorem not_endsInSymbols_slash
    (hx : (grammar.lexemes (.code .plain) text).getLast? = some (.of .operator ['/'])) :
    ¬EndsInSymbols (grammar.tokens text) := by
  rintro ⟨t, ht, -, hslash⟩
  obtain ⟨w, t', ht', hlexeme⟩ := grammar.exists_getLast?_tokens hx
  obtain rfl : t = t' := Option.some.inj (ht.symm.trans ht')
  obtain ⟨hkind, -, htext⟩ := Lexeme.mk.inj hlexeme
  obtain ⟨-, -, -, -, hform, -⟩ := (Lexis.covers_of_code lawful sound_code).sound lawful text t
    (List.mem_of_getLast? ht)
  have hmem : String.ofList t.text ∈ operators := by
    rw [hkind] at hform
    exact hform.2
  have hoperators : ∀ operator ∈ operators,
      operator.toList.getLast? = some '/' → operator = "/" := by decide +kernel
  have hlast : (String.ofList t.text).toList.getLast? = some '/' := by
    rw [String.toList_ofList, htext, List.getLast?_append]
    rfl
  have hslash' := congrArg String.toList (hoperators _ hmem hlast)
  rw [String.toList_ofList] at hslash'
  exact hslash hslash'

end LastToken

variable {xs : List Lexeme}

theorem meeting_of_loose (hloose : Loose c cs)
    (hrun : grammar.Run (.code .plain) (text ++ after) xs (.code mode) (c :: cs ++ after))
    (hrun' : grammar.Run (.code .plain) text xs (.code mode) (c :: cs)) : Meeting text after := by
  refine .comment hrun'.flatMap_text.symm hrun hloose ?_
  obtain ⟨rfl, rfl | ⟨⟨cs, rfl⟩, hline⟩⟩ := hloose
  · have hstep : grammar.step (.code mode) '/' [] = .one .operator 0 (.code .plain) := by
      cases mode <;> rfl
    exact not_endsInSymbols_slash (hrun'.getLast?_lexemes hstep)
  · rw [List.singleton_append] at hline hrun'
    have hstep : grammar.step (.code mode) '/' ('/' :: cs) =
        .one .comment (line ('/' :: cs)).length (.code mode) := by cases mode <;> rfl
    rw [line_of_not_mem hline] at hstep
    refine not_endsInSymbols_tokens fun x hx => ?_
    obtain rfl := Option.some.inj ((hrun'.getLast?_lexemes hstep).symm.trans hx)
    exact Lexeme.not_endsInSymbols nofun nofun

theorem meeting_of_symbols (hw : RunOf isSymbol (c :: cs)) (hopens : ¬Opens (c :: cs))
    (hloose : ¬Loose c cs)
    (hrun : grammar.Run (.code .plain) (text ++ after) xs (.code mode) (c :: cs ++ after))
    (hrun' : grammar.Run (.code .plain) text xs (.code mode) (c :: cs)) : Meeting text after := by
  obtain ⟨hc, hcs⟩ := List.forall_mem_cons.1 hw.all
  have hall : run isSymbol cs = cs.length := run_eq_length_iff.2 hcs
  have hnone : ¬Opens (c :: cs ++ after) := fun h => (opens_append h).elim hopens hloose
  refine .symbols hrun'.flatMap_text.symm hrun hw hnone ?_
  have hstep : grammar.step (.code mode) c cs = _ := code_symbol hc hopens mode
  rw [hall] at hstep
  refine endsInSymbols_tokens (hrun'.getLast?_lexemes hstep) ?_ (List.cons_ne_nil c cs) ?_
  · have hsymbol : ∃ d ∈ (c :: cs).getLast?, isSymbol d :=
      ⟨_, List.getLast?_eq_some_getLast (List.cons_ne_nil c cs), hw.all _ (List.getLast_mem _)⟩
    split
    · exact .inl rfl
    · exact .inr ⟨rfl, hsymbol⟩
  · intro hslash
    obtain ⟨rfl, rfl⟩ := List.cons.inj hslash
    exact hloose ⟨rfl, .inl rfl⟩

theorem false_of_string (hline : '\n' ∉ cs) (hquote : ∀ p, ¬QuoteAt cs p)
    (hclosed : grammar.ending (.code .plain) text = .code .plain)
    (hlast : ∀ t ∈ (grammar.tokens text).getLast?, t.kind ≠ .stringInvalid)
    (hrun : grammar.Run (.code .plain) text xs (.code mode) ('"' :: cs)) : False := by
  have hcode : grammar.step (.code mode) '"' cs = _ := code_doubleQuote mode cs
  split at hcode
  · obtain ⟨ys, hbody, -, -⟩ := grammar.exists_run_of_no_quote .plain hquote
    have hopening : grammar.Run (.code mode) ('"' :: cs) [.of .stringQuote ['"']]
        (.string .plain) cs := .one _ _ hcode
    have hend := ((hrun.trans hopening).trans hbody).ending_eq
    rw [hclosed, Grammar.ending] at hend
    cases hend
  · rw [line_of_not_mem hline] at hcode
    obtain ⟨w, t, ht, hlexeme⟩ := grammar.exists_getLast?_tokens (hrun.getLast?_lexemes hcode)
    exact hlast t ht (congrArg Lexeme.kind hlexeme)

theorem meeting (hafter : Opens after)
    (hclosed : grammar.ending (.code .plain) text = .code .plain)
    (hlast : ∀ t ∈ (grammar.tokens text).getLast?, t.kind ≠ .stringInvalid) :
    Meeting text after := by
  obtain ⟨hrun, hends⟩ | ⟨mode, xs, c, cs, hover, hrun, hrun'⟩ :=
    exists_run_to_opening hafter hclosed
  · exact .code (grammar.flatMap_text_lexemes _ text) hrun (not_endsInSymbols_tokens hends)
  by_cases hloose : Loose c cs
  · exact meeting_of_loose hloose hrun hrun'
  cases hover with
  | symbols hw hopens => exact meeting_of_symbols hw hopens hloose hrun hrun'
  | comment hline =>
    exact absurd ⟨rfl, .inr ⟨List.prefix_append ['/'] _, by simpa using hline⟩⟩ hloose
  | string hline hquote => exact (false_of_string hline hquote hclosed hlast hrun').elim

/-! ### What becomes of it -/

section Painted
variable {kind : TokenKind} {more count : Nat} {next : State Mode}

theorem paints_behind (htext : xs.flatMap Lexeme.text ++ c :: cs = text)
    (hrun : grammar.Run (.code .plain) (text ++ after) xs (.code mode) (c :: cs ++ after))
    (hstep : grammar.code mode c (cs ++ after) = .one kind more next)
    (hcount : (c :: cs).length + count ≤ more + 1) :
    Token.Paints (grammar.tokens (text ++ after)) text.length count kind := by
  have hextent := inRange (.code mode) c (cs ++ after)
  rw [show grammar.step (.code mode) c (cs ++ after) = _ from hstep, Step.extent_one,
    List.length_cons] at hextent
  rw [← htext, List.length_append]
  rw [htext]
  exact hrun.paints hstep (Nat.le_of_succ_le_succ hextent) _ hcount

end Painted

theorem Meeting.paints_comment (h : Meeting text after) (hafter : Opens after)
    (hends : ¬EndsInSymbols (grammar.tokens text)) {count : Nat}
    (hline : count ≤ (line after).length) (hblock : ['/', '*'] <+: after → count ≤ 2) :
    Token.Paints (grammar.tokens (text ++ after)) text.length count .comment := by
  cases h with
  | @code xs mode htext hrun =>
    rw [← htext] at hrun ⊢
    obtain ⟨d, rest, rfl, hd⟩ := hafter.exists_cons
    have hlength := length_line_le (d :: rest)
    rcases hd with rfl | rfl
    · have hstep : grammar.step (.code mode) '/' ('/' :: rest) =
          .one .comment (line ('/' :: rest)).length (.code mode) := by cases mode <;> rfl
      rw [line_cons_of_ne (by decide), List.length_cons] at hline
      exact hrun.paints hstep hlength 0 (by omega)
    · have hstep : grammar.step (.code mode) '/' ('*' :: rest) =
          .one .comment 1 (.comment mode 0) := by cases mode <;> rfl
      have hcount := hblock (List.prefix_append ['/', '*'] rest)
      exact hrun.paints hstep (Nat.succ_le_succ (Nat.zero_le _)) 0 (by omega)
  | @comment xs mode c cs htext hrun hloose =>
    refine paints_behind htext hrun (code_loose hafter hloose mode) ?_
    rw [line_append_of_not_mem hloose.not_mem, List.length_append, List.length_cons]
    omega
  | symbols _ _ _ _ hends' => exact absurd hends' hends

theorem Meeting.paints_text (h : Meeting text after) (hafter : Opens after)
    (hends : EndsInSymbols (grammar.tokens text)) :
    Token.Paints (grammar.tokens (text ++ after)) text.length 2 .text := by
  cases h with
  | code _ _ hends' => exact absurd hends hends'
  | comment _ _ _ hends' => exact absurd hends hends'
  | @symbols xs mode c cs htext hrun hw hopens =>
    obtain ⟨hc, hcs⟩ := List.forall_mem_cons.1 hw.all
    have hall : run isSymbol cs = cs.length := run_eq_length_iff.2 hcs
    obtain ⟨d, rest, rfl, hd⟩ := hafter.exists_cons
    have hd : isSymbol d := by rcases hd with rfl | rfl <;> rfl
    have hrun' : run isSymbol (cs ++ '/' :: d :: rest) =
        cs.length + (run isSymbol rest + 1 + 1) := by
      rw [run_append_of_length hall, run_cons_of_pos (p := isSymbol) rfl, run_cons_of_pos hd]
    have hoperators : ∀ operator ∈ operators, '/' ∉ operator.toList.tail := by decide +kernel
    have hoperator : String.ofList (c :: (cs ++ '/' :: d :: rest).take
        (run isSymbol (cs ++ '/' :: d :: rest))) ∉ operators := by
      intro hmem
      refine hoperators _ hmem ?_
      rw [String.toList_ofList, hrun', List.tail_cons, List.take_length_add_append,
        List.take_succ_cons]
      exact List.mem_append_right cs List.mem_cons_self
    have hopens' : ¬Opens (c :: (cs ++ '/' :: d :: rest)) := hopens
    have hstep := code_symbol hc hopens' mode
    rw [if_neg hoperator, hrun'] at hstep
    refine paints_behind htext hrun hstep ?_
    rw [List.length_cons]
    omega

end Script

namespace Language

structure CommentsBehind (text : String) : Prop where
  line : ¬Script.EndsInSymbols (asl.tokens text) → ∀ rest : String,
    Token.Paints (asl.tokens (text ++ "//" ++ rest)) text.toList.length
      (2 + (line rest.toList).length) .comment
  block : ¬Script.EndsInSymbols (asl.tokens text) → ∀ rest : String,
    Token.Paints (asl.tokens (text ++ "/*" ++ rest)) text.toList.length 2 .comment
  swallowed : Script.EndsInSymbols (asl.tokens text) → ∀ rest : String,
    Token.Paints (asl.tokens (text ++ "//" ++ rest)) text.toList.length 2 .text ∧
      Token.Paints (asl.tokens (text ++ "/*" ++ rest)) text.toList.length 2 .text

/-- Behind a script that ends in code, a comment is recognized unless symbols are in front of it. -/
theorem comments_behind {text : String} (hclosed : asl.Closed text)
    (hlast : ∀ t ∈ (asl.tokens text).getLast?, t.kind ≠ .stringInvalid) : CommentsBehind text := by
  have htokens (opening : String) (rest : String) : asl.tokens (text ++ opening ++ rest) =
      Script.grammar.tokens (text.toList ++ (opening.toList ++ rest.toList)) := by
    rw [tokens, String.toList_append, String.toList_append, List.append_assoc]
  have hslashes (rest : String) : Opens ("//".toList ++ rest.toList) :=
    .inl (List.prefix_append ['/', '/'] rest.toList)
  have hblock (rest : String) : Opens ("/*".toList ++ rest.toList) :=
    .inr (List.prefix_append ['/', '*'] rest.toList)
  constructor
  case line =>
    intro hends rest
    have hline : line ("//".toList ++ rest.toList) = '/' :: '/' :: line rest.toList := rfl
    have hlength := congrArg List.length hline
    rw [List.length_cons, List.length_cons] at hlength
    rw [htokens]
    refine (Script.meeting (hslashes rest) hclosed hlast).paints_comment (hslashes rest) hends
      (by omega) fun hstar => ?_
    exact absurd (List.cons_prefix_cons.1 (List.cons_prefix_cons.1 hstar).2).1 (by decide)
  case block =>
    intro hends rest
    have hline : line ("/*".toList ++ rest.toList) = '/' :: '*' :: line rest.toList := rfl
    have hlength := congrArg List.length hline
    rw [List.length_cons, List.length_cons] at hlength
    rw [htokens]
    exact (Script.meeting (hblock rest) hclosed hlast).paints_comment (hblock rest) hends
      (by omega) fun _ => Nat.le_refl 2
  case swallowed =>
    intro hends rest
    rw [htokens, htokens]
    exact ⟨(Script.meeting (hslashes rest) hclosed hlast).paints_text (hslashes rest) hends,
      (Script.meeting (hblock rest) hclosed hlast).paints_text (hblock rest) hends⟩

/-- A slash becomes a line comment with the opening behind it, whichever it is. -/
theorem comments_behind_slash : asl.Closed "x /" ∧
    (∀ t ∈ (asl.tokens "x /").getLast?, t.kind ≠ .stringInvalid) ∧ CommentsBehind "x /" := by
  have hclosed : asl.Closed "x /" := by
    rw [Closed]
    decide +kernel
  have hlast : ∀ t ∈ (asl.tokens "x /").getLast?, t.kind ≠ .stringInvalid := by decide +kernel
  exact ⟨hclosed, hlast, comments_behind hclosed hlast⟩

/-- An assignment swallows the comment glued to it. -/
theorem comment_swallowed : asl.Closed "x =" ∧
    (∀ t ∈ (asl.tokens "x =").getLast?, t.kind ≠ .stringInvalid) ∧
      ¬Token.Paints (asl.tokens ("x =" ++ "//" ++ " y")) "x =".toList.length
        (2 + (line " y".toList).length) .comment := by
  have hclosed : asl.Closed "x =" := by
    rw [Closed]
    decide +kernel
  refine ⟨hclosed, by decide +kernel, ?_⟩
  rw [Token.Paints]
  decide +kernel

end Language

end SplitEditor
