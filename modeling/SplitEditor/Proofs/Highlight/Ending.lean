import SplitEditor.Proofs.Highlight.LineEnds
import SplitEditor.Proofs.Highlight.Seam

/-! Finished lines keep their colours. If the reading of a text is back in the code it started in
when the last line ends, what follows is read as if it stood alone, and at most a run of white
space grows over the cut. -/

namespace SplitEditor

open Pattern

namespace Grammar
variable {μ : Type} {g : Grammar μ} {state : State μ} {mode : μ} {text rest : List Char}

/-- The state in which the reading of a text ends, step by step as its lexemes are read. -/
def ending (g : Grammar μ) (state : State μ) : List Char → State μ
  | [] => state
  | c :: cs =>
    let step := g.step state c cs
    ending g step.next (lay step.others (cs.drop step.first.more)).2
termination_by cs => cs.length
decreasing_by
  have h := length_lay_le (g.step state c cs).others (cs.drop (g.step state c cs).first.more)
  simp only [List.length_cons, List.length_drop] at h ⊢
  omega

theorem ending_cons (g : Grammar μ) (state : State μ) (c : Char) (cs : List Char) :
    g.ending state (c :: cs) =
      g.ending (g.step state c cs).next (lay (g.step state c cs).paints (c :: cs)).2 := by
  rw [ending]
  rfl

theorem lay_append {ps : List Paint} (h : (ps.map Paint.extent).sum ≤ text.length)
    (rest : List Char) : lay ps (text ++ rest) = ((lay ps text).1, (lay ps text).2 ++ rest) := by
  induction ps generalizing text with
  | nil => rfl
  | cons p ps ih =>
    rw [List.map_cons, List.sum_cons, Paint.extent] at h
    rcases text with _ | ⟨c, text⟩
    · rw [List.length_nil] at h
      omega
    rw [List.length_cons] at h
    have hle : p.more ≤ text.length := by omega
    have hdrop : (ps.map Paint.extent).sum ≤ (text.drop p.more).length := by
      rw [List.length_drop]
      omega
    have hlay := ih hdrop
    simp only [List.cons_append, lay, List.take_append_of_le_length hle,
      List.drop_append_of_le_length hle, hlay]

theorem lexemes_append_of_step {c : Char} {cs : List Char} (hrange : g.InRange)
    (hstep : g.step state c (cs ++ rest) = g.step state c cs) :
    g.lexemes state (c :: cs ++ rest) = (lay (g.step state c cs).paints (c :: cs)).1 ++
      g.lexemes (g.step state c cs).next
        ((lay (g.step state c cs).paints (c :: cs)).2 ++ rest) := by
  have hextent : ((g.step state c cs).paints.map Paint.extent).sum ≤ (c :: cs).length :=
    hrange state c cs
  have hlay := lay_append hextent rest
  rw [List.cons_append] at hlay ⊢
  rw [lexemes_cons, hstep, hlay]

def ReadsBlank (g : Grammar μ) : Prop :=
  ∀ mode c cs, isBlank c → g.code mode c cs = .one .white (run isBlank cs) (.code mode)

theorem lexemes_blank {c : Char} {cs : List Char} (hblank : g.ReadsBlank) (hc : isBlank c)
    (mode : μ) : g.lexemes (.code mode) (c :: cs) =
      ⟨.white, TokenKind.white.scope, c :: cs.take (run isBlank cs)⟩ ::
        g.lexemes (.code mode) (cs.drop (run isBlank cs)) := by
  have hstep : g.step (.code mode) c cs = .one .white (run isBlank cs) (.code mode) :=
    hblank mode c cs hc
  rw [lexemes_cons, hstep]
  rfl

end Grammar

namespace Pattern
variable {p : Char → Bool} {text : List Char}

theorem run_append_of_lt (h : run p text < text.length) (rest : List Char) :
    run p (text ++ rest) = run p text := by
  rw [run] at h
  rw [run, run, List.takeWhile_append, if_neg h.ne]

theorem run_append_of_length (h : run p text = text.length) (rest : List Char) :
    run p (text ++ rest) = text.length + run p rest := by
  rw [run] at h
  rw [run, run, List.takeWhile_append, if_pos h, List.length_append]

end Pattern

def EndsLine (text : List Char) : Prop := text ≠ [] → ['\n'] <:+ text

theorem EndsLine.of_suffix {text rest : List Char} (h : EndsLine text) (hsuffix : rest <:+ text) :
    EndsLine rest := by
  intro hrest
  have htext : text ≠ [] := by
    rintro rfl
    exact hrest (List.suffix_nil.1 hsuffix)
  rcases List.suffix_or_suffix_of_suffix (h htext) hsuffix with hline | hline
  · exact hline
  · rcases List.suffix_cons_iff.1 hline with rfl | hnil
    · exact List.suffix_rfl
    · exact absurd (List.suffix_nil.1 hnil) hrest

namespace Grammar
variable {μ : Type} {g : Grammar μ} {state : State μ} {mode : μ} {text rest : List Char}

theorem joined_lexemes_blank {c : Char} {cs : List Char} (hblank : g.ReadsBlank)
    (hc : isBlank c) (hcs : run isBlank cs = cs.length) (mode : μ) (rest : List Char) :
    Lexeme.joined (g.lexemes (.code mode) (c :: cs ++ rest)) =
      Lexeme.joined (g.lexemes (.code mode) (c :: cs) ++ g.lexemes (.code mode) rest) := by
  have hwhite : g.lexemes (.code mode) (c :: cs) =
      [⟨.white, TokenKind.white.scope, c :: cs⟩] := by
    rw [lexemes_blank hblank hc, hcs, List.take_length, List.drop_length, lexemes]
  have hrun := run_append_of_length hcs rest
  rw [List.cons_append, lexemes_blank hblank hc, hwhite, hrun, List.take_length_add_append,
    List.drop_length_add_append, List.singleton_append]
  cases rest with
  | nil => simp [run, lexemes]
  | cons d ds =>
    by_cases hd : isBlank d
    · have hrun : run isBlank (d :: ds) = run isBlank ds + 1 := by simp [run, hd]
      rw [hrun, List.take_succ_cons, List.drop_succ_cons, lexemes_blank hblank hd,
        Lexeme.joined_cons, Lexeme.joined_cons, Lexeme.joined_cons]
      symm
      refine Lexeme.join_join ?_ _
      exact ⟨rfl, rfl⟩
    · have hrun : run isBlank (d :: ds) = 0 := by simp [run, hd]
      rw [hrun, List.take_zero, List.drop_zero, List.append_nil]

theorem ending_of_one {c : Char} {cs : List Char} {kind : TokenKind} {next : State μ}
    (hstep : g.step state c cs = .one kind cs.length next) :
    g.ending state (c :: cs) = next := by
  have hrest : (lay (Step.one kind cs.length next).paints (c :: cs)).2 = [] :=
    List.drop_length
  rw [ending_cons, hstep, hrest, ending]
  rfl

end Grammar

namespace Step
variable {μ : Type} {c : Char} {cs : List Char}

theorem inString_append (hline : ['\n'] <:+ c :: cs) (mode : μ) (rest : List Char) :
    inString mode c (cs ++ rest) = inString mode c cs ∨
      inString mode c cs = one .string cs.length (.string mode) := by
  by_cases hquote : c = '"'
  · simp [inString, hquote]
  by_cases hescape : c = '\\'
  · subst hescape
    have hlength := append_of_line escapeLength_line (hline.subset (List.mem_singleton_self _)) rest
    have hmore : min 1 (cs ++ rest).length = min 1 cs.length := by
      rcases List.suffix_cons_iff.1 hline with heq | hcs
      · cases (List.cons.inj heq).1
      · have hpos := hcs.length_le
        rw [List.length_singleton] at hpos
        rw [List.length_append]
        omega
    left
    rw [List.cons_append] at hlength
    simp only [inString, if_neg hquote, ↓reduceIte, hlength, hmore]
  · simp only [inString, if_neg hquote, if_neg hescape]
    rcases (run_le (fun d => d != '"' && d != '\\') cs).lt_or_eq with hlt | heq
    · left
      rw [run_append_of_lt hlt]
    · right
      rw [heq]

theorem inComment_slash (mode : μ) (outer : Nat) (d : Char) (cs : List Char) :
    inComment mode outer '/' (d :: cs) =
      if d = '*' then one .comment 1 (.comment mode (outer + 1))
      else one .comment 0 (.comment mode outer) := by
  by_cases hd : d = '*' <;> simp [inComment, hd]

theorem inComment_star (mode : μ) (outer : Nat) (d : Char) (cs : List Char) :
    inComment mode outer '*' (d :: cs) =
      if d = '/' then one .comment 1 (closeComment mode outer)
      else one .comment 0 (.comment mode outer) := by
  by_cases hd : d = '/' <;> simp [inComment, hd]

theorem inComment_append (hline : ['\n'] <:+ c :: cs) (mode : μ) (outer : Nat)
    (rest : List Char) : inComment mode outer c (cs ++ rest) = inComment mode outer c cs ∨
      inComment mode outer c cs = one .comment cs.length (.comment mode outer) := by
  by_cases hmark : c = '/' ∨ c = '*'
  · -- the line break is still to come, so there is a character to look at
    left
    cases cs with
    | nil =>
      obtain rfl := List.mem_singleton.1 (hline.subset (List.mem_singleton_self _))
      exact absurd hmark (by decide)
    | cons d cs =>
      rcases hmark with rfl | rfl
      · rw [List.cons_append, inComment_slash, inComment_slash]
      · rw [List.cons_append, inComment_star, inComment_star]
  · have hbody (cs : List Char) : inComment mode outer c cs =
        one .comment (run (fun d => d != '/' && d != '*') cs) (.comment mode outer) := by
      rw [not_or] at hmark
      simp [inComment, hmark]
    rw [hbody, hbody]
    rcases (run_le (fun d => d != '/' && d != '*') cs).lt_or_eq with hlt | heq
    · left
      rw [run_append_of_lt hlt]
    · right
      rw [heq]

end Step

namespace Grammar
variable {μ : Type} {g : Grammar μ} {state : State μ} {mode : μ} {text : List Char}

theorem step_append {c : Char} {cs : List Char} (hblank : g.ReadsBlank)
    (hsettled : g.Settled (c :: cs)) (hline : ['\n'] <:+ c :: cs)
    (hend : g.ending state (c :: cs) = .code mode) (rest : List Char) :
    g.step state c (cs ++ rest) = g.step state c cs ∨
      state = .code mode ∧ isBlank c ∧ run isBlank cs = cs.length := by
  cases state with
  | code mode' =>
    by_cases hc : isBlank c
    · have hstep : g.step (.code mode') c cs = .one .white (run isBlank cs) (.code mode') :=
        hblank mode' c cs hc
      have hstep' : g.step (.code mode') c (cs ++ rest) =
          .one .white (run isBlank (cs ++ rest)) (.code mode') := hblank mode' c (cs ++ rest) hc
      rcases (run_le isBlank cs).lt_or_eq with hlt | heq
      · left
        rw [hstep, hstep', run_append_of_lt hlt]
      · right
        rw [heq] at hstep
        exact ⟨(ending_of_one hstep).symm.trans hend, hc, heq⟩
    · exact .inl (hsettled mode' c cs List.suffix_rfl (Bool.eq_false_iff.2 hc) rest)
  | string mode' =>
    rcases Step.inString_append hline mode' rest with hstep | hstep
    · exact .inl hstep
    · have hstring : g.ending (.string mode') (c :: cs) = .string mode' := ending_of_one hstep
      cases hstring.symm.trans hend
  | comment mode' outer =>
    rcases Step.inComment_append hline mode' outer rest with hstep | hstep
    · exact .inl hstep
    · have hcomment : g.ending (.comment mode' outer) (c :: cs) = .comment mode' outer :=
        ending_of_one hstep
      cases hcomment.symm.trans hend

theorem joined_lexemes_append (hrange : g.InRange) (hblank : g.ReadsBlank)
    (hsettled : g.Settled text) (hline : EndsLine text)
    (hend : g.ending state text = .code mode) (rest : List Char) :
    Lexeme.joined (g.lexemes state (text ++ rest)) =
      Lexeme.joined (g.lexemes state text ++ g.lexemes (.code mode) rest) := by
  fun_induction ending g state text with
  | case1 state =>
    subst hend
    rw [lexemes]
    rfl
  | case2 state c cs step ih =>
    have hsuffix : (lay step.paints (c :: cs)).2 <:+ c :: cs := lay_suffix _ _
    have hend' : g.ending state (c :: cs) = .code mode := by
      rw [ending_cons]
      exact hend
    rcases step_append hblank hsettled (hline (List.cons_ne_nil c cs)) hend' rest with
      hstep | ⟨rfl, hc, hcs⟩
    · rw [lexemes_append_of_step hrange hstep, lexemes_cons, List.append_assoc]
      exact Lexeme.joined_append_congr
        (ih (hsettled.of_suffix hsuffix) (hline.of_suffix hsuffix) hend) _
    · exact joined_lexemes_blank hblank hc hcs mode rest

theorem tokens_append (hrange : g.InRange) (hblank : g.ReadsBlank) (hsettled : g.Settled text)
    (hline : EndsLine text) (hend : g.ending (.code g.start) text = .code g.start)
    (rest : List Char) : g.tokens (text ++ rest) =
      Token.seam (g.tokens text) ((g.tokens rest).map (Token.shift (Utf8.byteLength text))) := by
  rw [tokens, joined_lexemes_append hrange hblank hsettled hline hend,
    Lexeme.place_joined_append, flatMap_text_lexemes]
  rfl

end Grammar

theorem Pattern.isBlank_iff {c : Char} :
    isBlank c ↔ c = ' ' ∨ c = '\t' ∨ c = '\r' ∨ c = '\n' := by
  simp [isBlank, or_assoc]

theorem Outline.readsBlank : grammar.ReadsBlank := by
  intro mode c cs hc
  rcases isBlank_iff.1 hc with rfl | rfl | rfl | rfl <;> rfl

theorem Script.readsBlank : grammar.ReadsBlank := by
  intro mode c cs hc
  cases mode <;> rcases isBlank_iff.1 hc with rfl | rfl | rfl | rfl <;> rfl

namespace Language

/-- No string and no comment is open at the end of the text, and no name is awaited. -/
def Closed (language : Language) (text : String) : Prop :=
  match language with
  | asl => Script.grammar.ending (.code .plain) text.toList = .code .plain
  | wast => Outline.grammar.ending (.code ()) text.toList = .code ()

/-- The tokens of finished lines stay as they are, whatever lines come after. -/
theorem tokens_append_of_closed (language : Language) {text : String}
    (hline : ['\n'] <:+ text.toList) (hclosed : language.Closed text)
    (hquote : language = asl → ¬['\'', '\n'] <:+ text.toList) (rest : String) :
    language.tokens (text ++ rest) = Token.seam (language.tokens text)
      ((language.tokens rest).map (Token.shift (Utf8.byteLength text.toList))) := by
  cases language with
  | asl =>
    rw [tokens, String.toList_append]
    exact Grammar.tokens_append Script.inRange Script.readsBlank
      (Script.settled hline (hquote rfl)) (fun _ => hline) hclosed rest.toList
  | wast =>
    rw [tokens, String.toList_append]
    exact Grammar.tokens_append Outline.inRange Outline.readsBlank
      (Outline.settled hline) (fun _ => hline) hclosed rest.toList

/-- The white space that ends a script grows into the lines behind. -/
theorem tokens_append_indented : asl.Closed "let x = 'a';\n" ∧
    asl.tokens ("let x = 'a';\n" ++ "  // comment") =
      Token.seam (asl.tokens "let x = 'a';\n")
        ((asl.tokens "  // comment").map (Token.shift 13)) := by
  have hclosed : asl.Closed "let x = 'a';\n" := by
    rw [Closed]
    decide +kernel
  exact ⟨hclosed, tokens_append_of_closed asl (by decide) hclosed (by decide) _⟩

end Language

end SplitEditor
