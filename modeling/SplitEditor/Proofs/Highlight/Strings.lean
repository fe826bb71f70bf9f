import Mathlib.Data.Nat.Find
import SplitEditor.Proofs.Highlight.Kinds
import SplitEditor.Proofs.Highlight.Runs

/-! Where a string ends. Before a string is entered, a look ahead decides whether it closes on its
line; its body is then read in escapes and runs of other characters. Both are compared with the
first quote that no backslash takes along, and so they agree. -/

namespace SplitEditor

open Pattern

namespace Pattern
variable {text rest w : List Char} {c d : Char} {cs : List Char} {i p : Nat}

/-- A backslash takes the next character along, unless it is taken along itself. -/
def Escaped (text : List Char) : Nat → Prop
  | 0 => False
  | i + 1 => text[i]? = some '\\' ∧ ¬Escaped text i

def QuoteAt (text : List Char) (p : Nat) : Prop := text[p]? = some '"' ∧ ¬Escaped text p

structure FirstQuote (text : List Char) (p : Nat) : Prop where
  quote : QuoteAt text p
  first : ∀ q < p, ¬QuoteAt text q

theorem QuoteAt.lt (h : QuoteAt text p) : p < text.length := (List.getElem?_eq_some_iff.1 h.1).1

theorem exists_firstQuote (h : QuoteAt text p) : ∃ q ≤ p, FirstQuote text q := by
  classical
  have hex : ∃ q, QuoteAt text q := ⟨p, h⟩
  exact ⟨Nat.find hex, Nat.find_min' hex h, Nat.find_spec hex, fun q => Nat.find_min hex⟩

theorem escaped_cons (hc : c ≠ '\\') (cs : List Char) (i : Nat) :
    Escaped (c :: cs) (i + 1) ↔ Escaped cs i := by
  induction i with
  | zero => simp [Escaped, hc]
  | succ i ih =>
    rw [Escaped, List.getElem?_cons_succ, ih]
    rfl

theorem escaped_pair (d : Char) (cs : List Char) (i : Nat) :
    Escaped ('\\' :: d :: cs) (i + 2) ↔ Escaped cs i := by
  induction i with
  | zero => simp [Escaped]
  | succ i ih =>
    rw [Escaped, List.getElem?_cons_succ, List.getElem?_cons_succ, ih]
    rfl

theorem escaped_append (h : i ≤ text.length) (rest : List Char) :
    Escaped (text ++ rest) i ↔ Escaped text i := by
  induction i with
  | zero => rfl
  | succ i ih => rw [Escaped, Escaped, List.getElem?_append_left h, ih (Nat.le_of_succ_le h)]

theorem quoteAt_append (h : p < text.length) (rest : List Char) :
    QuoteAt (text ++ rest) p ↔ QuoteAt text p := by
  rw [QuoteAt, QuoteAt, List.getElem?_append_left h, escaped_append (Nat.le_of_lt h)]

inductive Unquoted : List Char → Prop
  | nil : Unquoted []
  | plain {c : Char} {w : List Char} (hquote : c ≠ '"') (hescape : c ≠ '\\') (h : Unquoted w) :
    Unquoted (c :: w)
  | pair {w : List Char} (d : Char) (h : Unquoted w) : Unquoted ('\\' :: d :: w)

namespace Unquoted

theorem of_plain (h : ∀ c ∈ w, (c != '"' && c != '\\') = true) : Unquoted w := by
  induction w with
  | nil => exact .nil
  | cons c w ih =>
    obtain ⟨hc, hw⟩ := List.forall_mem_cons.1 h
    simp only [Bool.and_eq_true, bne_iff_ne] at hc
    exact .plain hc.1 hc.2 (ih hw)

theorem escaped_append (h : Unquoted w) (text : List Char) (i : Nat) :
    Escaped (w ++ text) (w.length + i) ↔ Escaped text i := by
  induction h with
  | nil => rw [List.nil_append, List.length_nil, Nat.zero_add]
  | plain _ hescape _ ih =>
    rw [List.cons_append, List.length_cons, Nat.add_right_comm, escaped_cons hescape, ih]
  | pair d _ ih =>
    rw [List.cons_append, List.cons_append, List.length_cons, List.length_cons, Nat.add_right_comm,
      Nat.add_right_comm _ 1 i, escaped_pair, ih]

theorem quoteAt_append (h : Unquoted w) (text : List Char) (p : Nat) :
    QuoteAt (w ++ text) (w.length + p) ↔ QuoteAt text p := by
  rw [QuoteAt, QuoteAt, h.escaped_append, List.getElem?_append_right (Nat.le_add_right _ _),
    Nat.add_sub_cancel_left]

theorem not_quoteAt (h : Unquoted w) (text : List Char) : ∀ p < w.length,
    ¬QuoteAt (w ++ text) p := by
  induction h with
  | nil => exact fun p hp => absurd hp (Nat.not_lt_zero p)
  | @plain c w hquote hescape _ ih =>
    rintro (_ | p) hp ⟨hchar, hfree⟩
    · exact hquote (Option.some.inj hchar)
    · rw [List.cons_append, escaped_cons hescape] at hfree
      exact ih p (Nat.lt_of_succ_lt_succ hp) ⟨hchar, hfree⟩
  | @pair w d _ ih =>
    rintro (_ | _ | p) hp ⟨hchar, hfree⟩
    · cases hchar
    · exact hfree ⟨rfl, id⟩
    · rw [List.cons_append, List.cons_append, escaped_pair] at hfree
      exact ih p (Nat.lt_of_succ_lt_succ (Nat.lt_of_succ_lt_succ hp)) ⟨hchar, hfree⟩

theorem exists_firstQuote (h : Unquoted w) (hquote : FirstQuote (w ++ text) p) :
    ∃ q, p = w.length + q ∧ FirstQuote text q := by
  have hle : w.length ≤ p := Nat.le_of_not_lt fun hlt => h.not_quoteAt text p hlt hquote.quote
  obtain ⟨q, rfl⟩ := Nat.exists_eq_add_of_le hle
  refine ⟨q, rfl, (h.quoteAt_append text q).1 hquote.quote, fun r hr hquoter => ?_⟩
  exact hquote.first (w.length + r) (Nat.add_lt_add_left hr _) ((h.quoteAt_append text r).2 hquoter)

end Unquoted

theorem unquoted_of_isEscape (h : IsEscape w) : Unquoted w := by
  have hplain (c : Char) (hc : isHexDigit c) : (c != '"' && c != '\\') = true := by
    simp only [Bool.and_eq_true, bne_iff_ne]
    constructor <;> rintro rfl <;> cases hc
  have hdigits {digits : List Char} (h : RunOf isHexDigit digits) : Unquoted digits :=
    .of_plain fun c hc => hplain c (h.all c hc)
  cases h with
  | mark _ => exact .pair _ .nil
  | upToFour h _ => exact .pair _ (hdigits h)
  | four h _ => exact .pair _ (hdigits h)
  | eight h _ => exact .pair _ (hdigits h)

/-! ### The look ahead -/

theorem stringCloses_iff (text : List Char) :
    stringCloses text ↔ (∃ p, QuoteAt text p) ∨ Escaped text text.length := by
  fun_induction stringCloses text with
  | case1 => simp [QuoteAt, Escaped]
  | case2 => simp [Escaped]
  | case3 d rest ih =>
    have hquote : (∃ p, QuoteAt ('\\' :: d :: rest) p) ↔ ∃ p, QuoteAt rest p := by
      have hpair : Unquoted ['\\', d] := .pair d .nil
      constructor
      · rintro ⟨p, hp⟩
        obtain ⟨q, -, hq⟩ := exists_firstQuote hp
        have hq' : FirstQuote (['\\', d] ++ rest) q := hq
        obtain ⟨r, -, hr⟩ := hpair.exists_firstQuote hq'
        exact ⟨r, hr.quote⟩
      · rintro ⟨p, hp⟩
        exact ⟨2 + p, (hpair.quoteAt_append rest p).2 hp⟩
    rw [ih, hquote, List.length_cons, List.length_cons, escaped_pair]
  | case4 c rest hlast hescape ih =>
    have hbackslash : c ≠ '\\' := by
      rintro rfl
      cases rest with
      | nil => exact hlast rfl rfl
      | cons d rest => exact hescape d rest rfl rfl
    rw [Bool.or_eq_true, beq_iff_eq, ih, List.length_cons, escaped_cons hbackslash, ← or_assoc]
    refine or_congr_left ⟨?_, ?_⟩
    · rintro (rfl | ⟨p, hchar, hfree⟩)
      · exact ⟨0, rfl, id⟩
      · exact ⟨p + 1, hchar, (escaped_cons hbackslash rest p).not.2 hfree⟩
    · rintro ⟨_ | p, hchar, hfree⟩
      · exact .inl (Option.some.inj hchar)
      · exact .inr ⟨p, hchar, (escaped_cons hbackslash rest p).not.1 hfree⟩

theorem line_append_drop (text : List Char) :
    line text ++ text.drop (line text).length = text := by
  have hline : (line text).take (line text).length = text.take (line text).length :=
    take_line (Nat.le_refl (line text).length)
  rw [List.take_length] at hline
  nth_rewrite 1 [hline]
  exact List.take_append_drop _ text

theorem quoteAt_line (text : List Char) (p : Nat) :
    QuoteAt (line text) p ↔ p < (line text).length ∧ QuoteAt text p := by
  have hsplit := line_append_drop text
  constructor
  · intro h
    refine ⟨h.lt, ?_⟩
    rwa [← hsplit, quoteAt_append h.lt]
  · rintro ⟨hlt, h⟩
    rwa [← hsplit, quoteAt_append hlt] at h

theorem escaped_line (text : List Char) :
    Escaped (line text) (line text).length ↔ Escaped text (line text).length := by
  have hescaped := escaped_append (Nat.le_refl (line text).length) (text.drop (line text).length)
  rw [line_append_drop] at hescaped
  exact hescaped.symm

theorem unterminatedLength_eq_none_iff (text : List Char) : unterminatedLength text = none ↔
    (∃ p < (line text).length, QuoteAt text p) ∨ Escaped text (line text).length := by
  have hcloses := stringCloses_iff (line text)
  simp only [quoteAt_line, escaped_line] at hcloses
  rw [← hcloses, unterminatedLength]
  simp

theorem unterminatedLength_eq_some (h : unterminatedLength text ≠ none) :
    unterminatedLength text = some (1 + (line text).length) := by
  rw [unterminatedLength] at h ⊢
  split
  · next hcloses => simp [hcloses] at h
  · rfl

end Pattern

/-! ### The body -/

def bodyKinds : List TokenKind := [.string, .stringEscape, .stringEscapeInvalid]

namespace Step
variable {μ : Type} {c : Char}

theorem inString_of_ne (hc : c ≠ '"') (mode : μ) (cs : List Char) : ∃ kind more,
    inString mode c cs = one kind more (.string mode) ∧ kind ∈ bodyKinds ∧
      (Unquoted (c :: cs.take more) ∨ c = '\\' ∧ cs = []) := by
  by_cases hescape : c = '\\'
  · subst hescape
    cases hlength : escapeLength ('\\' :: cs) with
    | some n =>
      obtain ⟨more, rfl⟩ := Nat.exists_eq_succ_of_ne_zero (escapeLength_bounds hlength).1.ne'
      refine ⟨.stringEscape, more, by simp [inString, hlength], by decide, .inl ?_⟩
      exact unquoted_of_isEscape (isEscape_take hlength)
    | none =>
      refine ⟨.stringEscapeInvalid, min 1 cs.length, by simp [inString, hlength], by decide, ?_⟩
      cases cs with
      | nil => exact .inr ⟨rfl, rfl⟩
      | cons d cs =>
        have hmin : min 1 (d :: cs).length = 1 := Nat.min_eq_left (Nat.succ_le_succ (Nat.zero_le _))
        rw [hmin]
        exact .inl (.pair d .nil)
  · refine ⟨.string, run (fun d => d != '"' && d != '\\') cs, by simp [inString, hc, hescape],
      by decide, .inl (.plain hc hescape (.of_plain ?_))⟩
    exact forall_mem_take_run _ cs

end Step

namespace Grammar
variable {μ : Type} {g : Grammar μ} {mode mode' : μ} {text cs after : List Char}
  {xs : List Lexeme} {p : Nat}

theorem step_quote (g : Grammar μ) (mode : μ) (cs : List Char) :
    g.step (.string mode) '"' cs = .one .stringQuote 0 (.code mode) := rfl

theorem exists_run_of_firstQuote (g : Grammar μ) (mode : μ) (h : FirstQuote text p) :
    ∃ ys, g.Run (.string mode) text (ys ++ [.of .stringQuote ['"']]) (.code mode)
        (text.drop (p + 1)) ∧
      ys.flatMap Lexeme.text = text.take p ∧ ∀ y ∈ ys, y.kind ∈ bodyKinds := by
  induction text using reading_induction generalizing p with
  | nil => cases h.quote.1
  | cons c cs ih =>
    by_cases hc : c = '"'
    · subst hc
      have hp : p = 0 := by
        by_contra hne
        exact h.first 0 (Nat.pos_of_ne_zero hne) ⟨rfl, id⟩
      subst hp
      exact ⟨[], .one _ _ (g.step_quote mode cs), rfl, by simp⟩
    obtain ⟨kind, more, hstep, hkind, hw | ⟨rfl, rfl⟩⟩ := Step.inString_of_ne hc mode cs
    · have hsplit : (c :: cs.take more) ++ cs.drop more = c :: cs :=
        List.take_append_drop (more + 1) (c :: cs)
      rw [← hsplit] at h
      obtain ⟨q, rfl, hq⟩ := hw.exists_firstQuote h
      obtain ⟨ys, hrun, htext, hkinds⟩ := ih (cs.drop more) (List.drop_suffix more cs) hq
      have hfirst : g.Run (.string mode) (c :: cs) [.of kind (c :: cs.take more)] (.string mode)
          (cs.drop more) := .one _ _ hstep
      refine ⟨.of kind (c :: cs.take more) :: ys, ?_, ?_, ?_⟩
      · have hdrop : (c :: cs).drop ((c :: cs.take more).length + q + 1) =
            (cs.drop more).drop (q + 1) := by
          rw [← hsplit, Nat.add_assoc, List.drop_length_add_append]
        rw [hdrop]
        exact hfirst.trans hrun
      · rw [← hsplit, List.take_length_add_append, List.flatMap_cons, htext]
        rfl
      · exact List.forall_mem_cons.2 ⟨hkind, hkinds⟩
    · -- a lone backslash has no quote behind it
      have hp : p = 0 := Nat.lt_one_iff.1 h.quote.lt
      subst hp
      cases h.quote.1

theorem exists_run_of_no_quote (g : Grammar μ) (mode : μ) (h : ∀ p, ¬QuoteAt text p) :
    ∃ ys, g.Run (.string mode) text ys (.string mode) [] ∧
      ys.flatMap Lexeme.text = text ∧ ∀ y ∈ ys, y.kind ∈ bodyKinds := by
  induction text using reading_induction with
  | nil => exact ⟨[], .refl _ _, rfl, by simp⟩
  | cons c cs ih =>
    have hc : c ≠ '"' := by
      rintro rfl
      exact h 0 ⟨rfl, id⟩
    obtain ⟨kind, more, hstep, hkind, hw⟩ := Step.inString_of_ne hc mode cs
    have hsplit : (c :: cs.take more) ++ cs.drop more = c :: cs :=
      List.take_append_drop (more + 1) (c :: cs)
    have hrest : ∀ p, ¬QuoteAt (cs.drop more) p := by
      intro p hp
      rcases hw with hw | ⟨-, rfl⟩
      · exact h _ (hsplit ▸ (hw.quoteAt_append (cs.drop more) p).2 hp)
      · rw [List.drop_nil] at hp
        cases hp.1
    obtain ⟨ys, hrun, htext, hkinds⟩ := ih (cs.drop more) (List.drop_suffix more cs) hrest
    have hfirst : g.Run (.string mode) (c :: cs) [.of kind (c :: cs.take more)] (.string mode)
        (cs.drop more) := .one _ _ hstep
    refine ⟨.of kind (c :: cs.take more) :: ys, hfirst.trans hrun, ?_, ?_⟩
    · rw [List.flatMap_cons, htext]
      exact hsplit
    · exact List.forall_mem_cons.2 ⟨hkind, hkinds⟩

theorem Run.exists_quoteAt (hrange : g.InRange)
    (h : g.Run (.string mode) (cs ++ after) xs (.code mode') after) : ∃ p, QuoteAt cs p := by
  induction cs using reading_induction generalizing xs with
  | nil => cases (h.eq_of_refl hrange).1
  | cons c cs ih =>
    obtain ⟨s, ys, hstep, hextent, -, hrun⟩ := h.first_within hrange
    by_cases hc : c = '"'
    · subst hc
      exact ⟨0, rfl, id⟩
    obtain ⟨kind, more, hone, -, hw⟩ := Step.inString_of_ne hc mode (cs ++ after)
    obtain rfl : s = .one kind more (.string mode) := hstep.symm.trans hone
    have hmore : more ≤ cs.length := Nat.le_of_succ_le_succ hextent
    obtain ⟨p, hp⟩ := ih (cs.drop more) (List.drop_suffix more cs) hrun
    rcases hw with hw | ⟨-, hnil⟩
    · rw [List.take_append_of_le_length hmore] at hw
      have hsplit : (c :: cs.take more) ++ cs.drop more = c :: cs :=
        List.take_append_drop (more + 1) (c :: cs)
      exact ⟨_, hsplit ▸ (hw.quoteAt_append (cs.drop more) p).2 hp⟩
    · rw [(List.append_eq_nil_iff.1 hnil).1, List.drop_nil] at hp
      cases hp.1

end Grammar

/-! ### Strings in scripts -/

namespace Script
variable {source : String} {xs : List Lexeme} {mode : Mode} {cs : List Char} {p : Nat}

theorem code_doubleQuote (mode : Mode) (cs : List Char) : grammar.code mode '"' cs =
    if unterminatedLength cs = none then .one .stringQuote 0 (.string .plain)
    else .one .stringInvalid (line cs).length (.code .plain) := by
  have hfloat : floatLength ('"' :: cs) = none := rfl
  have hhex : hexLength ('"' :: cs) = none := rfl
  have hcode : grammar.code mode '"' cs = other '"' cs := by cases mode <;> rfl
  rw [hcode]
  cases h : unterminatedLength cs with
  | none =>
    rw [if_pos rfl]
    simp only [other, hfloat, hhex, h]
    rfl
  | some n =>
    have hsome := unterminatedLength_eq_some (h ▸ Option.some_ne_none n)
    have hn : n - 1 = (line cs).length := by
      rw [Option.some.inj (h.symm.trans hsome), Nat.add_sub_cancel_left]
    rw [if_neg (Option.some_ne_none n), ← hn]
    simp only [other, hfloat, hhex, h]
    rfl

/-- The string ends with the quote so far behind the opening one, and code goes on from there. -/
structure ClosesAt (source : String) (xs : List Lexeme) (cs : List Char) (p : Nat) : Prop where
  resumes : ∃ ys, grammar.Run (.code .plain) source.toList (xs ++ ys) (.code .plain)
    (cs.drop (p + 1))
  kinds : ∃ body, body.length = p ∧ (∀ kind ∈ body, kind ∈ bodyKinds) ∧
    Token.kinds (Language.asl.tokens source) = Lexeme.kinds xs ++ .stringQuote ::
      (body ++ .stringQuote :: Token.kinds (Language.asl.tokens (String.ofList (cs.drop (p + 1)))))

/-- The opening quote and its line are no string, and code goes on from the line break. -/
structure Breaks (source : String) (xs : List Lexeme) (cs : List Char) : Prop where
  resumes : grammar.Run (.code .plain) source.toList
    (xs ++ [.of .stringInvalid ('"' :: line cs)]) (.code .plain) (cs.drop (line cs).length)
  kinds : Token.kinds (Language.asl.tokens source) = Lexeme.kinds xs ++
    (List.replicate (1 + (line cs).length) .stringInvalid ++
      Token.kinds (Language.asl.tokens (String.ofList (cs.drop (line cs).length))))

structure RunsOn (source : String) (xs : List Lexeme) (cs : List Char) : Prop where
  open_end : grammar.ending (.code .plain) source.toList = .string .plain
  kinds : ∃ body, body.length = cs.length ∧ (∀ kind ∈ body, kind ∈ bodyKinds) ∧
    Token.kinds (Language.asl.tokens source) = Lexeme.kinds xs ++ .stringQuote :: body

/-- Where a string ends, by what is behind its opening quote. -/
structure StringExtent (source : String) (xs : List Lexeme) (cs : List Char) : Prop where
  closed : ∀ p < (line cs).length, FirstQuote cs p → ClosesAt source xs cs p
  broken : (∀ p < (line cs).length, ¬QuoteAt cs p) → ¬Escaped cs (line cs).length →
    Breaks source xs cs
  carried : (∀ p < (line cs).length, ¬QuoteAt cs p) → Escaped cs (line cs).length →
    (∀ p, FirstQuote cs p → ClosesAt source xs cs p) ∧
      ((∀ p, ¬QuoteAt cs p) → RunsOn source xs cs)

section Extent
variable (h : grammar.Run (.code .plain) source.toList xs (.code mode) ('"' :: cs))
include h

theorem run_opening (hopen : unterminatedLength cs = none) :
    grammar.Run (.code .plain) source.toList (xs ++ [.of .stringQuote ['"']]) (.string .plain)
      cs := by
  have hstep : grammar.step (.code mode) '"' cs = .one .stringQuote 0 (.string .plain) :=
    (code_doubleQuote mode cs).trans (if_pos hopen)
  exact h.trans (.one _ _ hstep)

theorem closesAt (hopen : unterminatedLength cs = none) (hp : FirstQuote cs p) :
    ClosesAt source xs cs p := by
  obtain ⟨ys, hbody, htext, hkinds⟩ := grammar.exists_run_of_firstQuote .plain hp
  have hrun := (run_opening h hopen).trans hbody
  have hlength : (Lexeme.kinds ys).length = p := by
    have hlt := hp.quote.lt
    rw [Lexeme.length_kinds, htext, List.length_take, Nat.min_eq_left (Nat.le_of_lt hlt)]
  constructor
  case resumes =>
    rw [List.append_assoc] at hrun
    exact ⟨_, hrun⟩
  case kinds =>
    refine ⟨Lexeme.kinds ys, hlength, fun kind hkind => ?_, ?_⟩
    · obtain ⟨y, hy, rfl⟩ := Lexeme.mem_kinds hkind
      exact hkinds y hy
    · have htokens := hrun.kinds_eq_tokens
      rw [Lexeme.kinds_append, Lexeme.kinds_append, Lexeme.kinds_append] at htokens
      rw [Language.tokens, Language.tokens, String.toList_ofList, htokens]
      simp [Lexeme.kinds, Lexeme.of]

theorem breaks (hopen : unterminatedLength cs ≠ none) : Breaks source xs cs := by
  have hstep : grammar.step (.code mode) '"' cs =
      .one .stringInvalid (line cs).length (.code .plain) :=
    (code_doubleQuote mode cs).trans (if_neg hopen)
  have htake : cs.take (line cs).length = line cs := by
    rw [← take_line (Nat.le_refl _), List.take_length]
  have hrun := h.trans (.one _ _ hstep)
  rw [htake] at hrun
  refine ⟨hrun, ?_⟩
  have htokens := hrun.kinds_eq_tokens
  rw [Lexeme.kinds_append] at htokens
  rw [Language.tokens, Language.tokens, String.toList_ofList, htokens]
  simp [Lexeme.kinds, Lexeme.of, Nat.add_comm]

theorem runsOn (hopen : unterminatedLength cs = none) (hno : ∀ p, ¬QuoteAt cs p) :
    RunsOn source xs cs := by
  obtain ⟨ys, hbody, htext, hkinds⟩ := grammar.exists_run_of_no_quote .plain hno
  have hrun := (run_opening h hopen).trans hbody
  constructor
  case open_end =>
    rw [hrun.ending_eq, Grammar.ending]
  case kinds =>
    refine ⟨Lexeme.kinds ys, by rw [Lexeme.length_kinds, htext], fun kind hkind => ?_, ?_⟩
    · obtain ⟨y, hy, rfl⟩ := Lexeme.mem_kinds hkind
      exact hkinds y hy
    · have htokens := hrun.kinds_eq
      rw [Lexeme.kinds_append, Lexeme.kinds_append] at htokens
      rw [Language.tokens, htokens]
      simp [Lexeme.kinds, Lexeme.of, Grammar.lexemes]

/-- A quote that is met in code begins a string up to the first quote behind it that no backslash
takes along. It has to be on the same line, unless that line ends in an unpaired backslash. -/
theorem string_extent : StringExtent source xs cs := by
  have hopen := unterminatedLength_eq_none_iff cs
  constructor
  case closed =>
    intro p hp hfirst
    exact closesAt h (hopen.2 (.inl ⟨p, hp, hfirst.quote⟩)) hfirst
  case broken =>
    intro hno hescaped
    refine breaks h fun hnone => ?_
    rcases hopen.1 hnone with ⟨p, hp, hquote⟩ | hline
    · exact hno p hp hquote
    · exact hescaped hline
  case carried =>
    intro _ hescaped
    have hnone := hopen.2 (.inr hescaped)
    exact ⟨fun p hfirst => closesAt h hnone hfirst, runsOn h hnone⟩

end Extent

theorem run_fn_blank {c : Char} (hc : isBlank c = false) (cs : List Char) :
    grammar.Run (.code .plain) ('f' :: 'n' :: ' ' :: c :: cs)
      [.of .keyword ['f', 'n'], .of .white [' ']] (.code .named) (c :: cs) := by
  have hword : grammar.Run (.code .plain) ('f' :: 'n' :: ' ' :: c :: cs)
      [.of .keyword ['f', 'n']] (.code .named) (' ' :: c :: cs) := .one .keyword 1 rfl
  have hrun : run isBlank (c :: cs) = 0 := by simp [run, hc]
  have hstep : grammar.step (.code .named) ' ' (c :: cs) = .one .white 0 (.code .named) :=
    hrun ▸ readsBlank .named ' ' (c :: cs) rfl
  exact hword.trans (.one _ _ hstep)

/-- A name is awaited, the first quote is taken along, and so is the line break. -/
theorem string_extent_carried :
    grammar.Run (.code .plain) "fn \"\\x\\\"\\\nA\" 1".toList
        [.of .keyword ['f', 'n'], .of .white [' ']] (.code .named)
        ('"' :: "\\x\\\"\\\nA\" 1".toList) ∧
      StringExtent "fn \"\\x\\\"\\\nA\" 1" [.of .keyword ['f', 'n'], .of .white [' ']]
        "\\x\\\"\\\nA\" 1".toList := by
  have hsource : "fn \"\\x\\\"\\\nA\" 1".toList =
      'f' :: 'n' :: ' ' :: '"' :: "\\x\\\"\\\nA\" 1".toList := by decide
  have hrun := run_fn_blank (c := '"') rfl "\\x\\\"\\\nA\" 1".toList
  rw [← hsource] at hrun
  exact ⟨hrun, string_extent hrun⟩

end Script

end SplitEditor
