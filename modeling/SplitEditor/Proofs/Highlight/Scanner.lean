import SplitEditor.Highlight.Scanner
import SplitEditor.Proofs.Highlight.Expressions
import SplitEditor.Proofs.Highlight.Joined
import SplitEditor.Proofs.Text.Slice

/-! The scanner follows a grammar. Where a rule of the grammar colours characters, the scanner takes
their bytes: it stands between what is coloured and what is left, never inside of a character. -/

namespace SplitEditor

open Utf8 Pattern

def Token.patch (t : Token) : Patch := ⟨t.kind, t.scope, t.start, t.stop⟩

def Lexeme.patches (xs : List Lexeme) : List Patch :=
  ((place 0 (joined xs)).map Token.patch).reverse

theorem Lexeme.patches_of_joined {xs ys zs : List Lexeme} (h : joined xs = ys ++ zs) :
    patches xs = ((place (byteLength (ys.flatMap text)) zs).map Token.patch).reverse ++
      ((place 0 ys).map Token.patch).reverse := by
  rw [patches, h, place_append, Nat.zero_add, List.map_append, List.reverse_append]

namespace Scanner

/-- The scanner between the lexemes it has coloured and the text that is left. -/
def between (xs : List Lexeme) (text : List Char) : Scanner :=
  ⟨xs.flatMap Lexeme.text ++ text, byteLength (xs.flatMap Lexeme.text), Lexeme.patches xs⟩

theorem between_nil (text : List Char) : between [] text = .new text := rfl

theorem isDone_between_nil (xs : List Lexeme) : (between xs []).isDone = true := by
  simp only [isDone, between, List.append_nil, Nat.le_refl, decide_true]

theorem isDone_between_cons (xs : List Lexeme) (c : Char) (cs : List Char) :
    (between xs (c :: cs)).isDone = false := by
  have hpos := c.utf8Size_pos
  simp only [isDone, between, byteLength_append, byteLength_cons, decide_eq_false_iff_not]
  omega

theorem paint_between (xs : List Lexeme) {piece : List Char} (kind : TokenKind) (scope : String)
    (rest : List Char) (hpiece : piece ≠ []) :
    (between xs (piece ++ rest)).paint kind scope (byteLength piece) =
      between (xs ++ [⟨kind, scope, piece⟩]) rest := by
  have hlength : byteLength piece ≠ 0 := by
    have hchars := List.length_pos_iff.2 hpiece
    have hbytes := length_le_byteLength piece
    omega
  rw [paint, if_neg hlength]
  simp only [between, List.flatMap_append, List.flatMap_singleton, List.append_assoc,
    byteLength_append]
  rcases Lexeme.exists_joined_concat xs ⟨kind, scope, piece⟩ with rfl | ⟨ys, y, hxs, hconcat⟩
  · rfl
  have hposition : byteLength (xs.flatMap Lexeme.text) =
      byteLength (ys.flatMap Lexeme.text) + byteLength y.text := by
    rw [← Lexeme.flatMap_text_joined xs, hxs, List.flatMap_append, List.flatMap_singleton,
      byteLength_append]
  have hlast : Lexeme.patches xs = ⟨y.kind, y.scope, byteLength (ys.flatMap Lexeme.text),
      byteLength (xs.flatMap Lexeme.text)⟩ :: ((Lexeme.place 0 ys).map Token.patch).reverse := by
    rw [Lexeme.patches_of_joined hxs, hposition]
    rfl
  rw [hlast, Lexeme.patches_of_joined hconcat, Lexeme.join]
  simp only [true_and]
  split
  · simp [Lexeme.place, Token.patch, Token.stop, byteLength_append, hposition, Nat.add_assoc]
  · simp [Lexeme.place, Token.patch, Token.stop, hposition, Nat.add_assoc]

def laid (xs : List Lexeme) (ps : List Paint) (text : List Char) : Scanner :=
  between (xs ++ (Grammar.lay ps text).1) (Grammar.lay ps text).2

theorem laid_cons (xs : List Lexeme) (p : Paint) (ps : List Paint) (c : Char) (cs : List Char) :
    laid xs (p :: ps) (c :: cs) =
      laid (xs ++ [⟨p.kind, p.scope, c :: cs.take p.more⟩]) ps (cs.drop p.more) := by
  simp only [laid, Grammar.lay, List.append_assoc, List.singleton_append]

theorem left_between (xs : List Lexeme) (text : List Char) :
    (between xs text).left = byteLength text := by
  rw [left, between, byteLength_append, Nat.add_sub_cancel_left]

theorem left_laid_lt (xs : List Lexeme) (p : Paint) (ps : List Paint) (c : Char) (cs : List Char) :
    (laid xs (p :: ps) (c :: cs)).left < (between xs (c :: cs)).left := by
  have hall := congrArg byteLength (Grammar.flatMap_text_lay ps (cs.drop p.more))
  have hrest := congrArg byteLength (List.take_append_drop p.more cs)
  rw [byteLength_append] at hall hrest
  have hpos := c.utf8Size_pos
  rw [laid, left_between, left_between, byteLength_cons]
  show byteLength (Grammar.lay ps (cs.drop p.more)).2 < _
  omega

end Scanner

/-- What a state is in, innermost first, and what the code around it is in. -/
def State.stack {μ φ : Type} (comment string : φ) (code : μ → List φ) : State μ → List φ
  | .code mode => code mode
  | .string mode => string :: code mode
  | .comment mode outer => List.replicate (outer + 1) comment ++ code mode

namespace Scan

open Scanner

variable {α β : Type} {s s' : Scanner} {xs : List Lexeme} {c : Char} {cs text : List Char}

theorem run_bind_ok {m : Scan α} {a : α} (h : m.run s = .ok (a, s')) (f : α → Scan β) :
    (m >>= f).run s = (f a).run s' := by
  rw [StateT.run_bind, h]
  rfl

theorem run_lift_ok {x : Except BadSlice α} {a : α} (h : x = .ok a) (f : α → Scan β) :
    ((liftM x : Scan α) >>= f).run s = (f a).run s := by
  rw [h]
  rfl

theorem run_rest (xs : List Lexeme) (text : List Char) :
    rest.run (between xs text) = .ok (text, between xs text) := by
  have h := dropBytes_append (xs.flatMap Lexeme.text) text
  simp [rest, between, h]

theorem run_peek (xs : List Lexeme) (text : List Char) :
    peek.run (between xs text) = .ok (text.head?, between xs text) := by
  rw [peek, run_bind_ok (run_rest xs text)]
  rfl

theorem run_emitScoped {length : Nat} (p : Paint)
    (hlength : length = byteLength (c :: cs.take p.more)) :
    (emitScoped p.kind p.scope length).run (between xs (c :: cs)) =
      .ok ((), laid xs [p] (c :: cs)) := by
  have hpiece := List.cons_ne_nil c (cs.take p.more)
  have h := paint_between xs p.kind p.scope (cs.drop p.more) hpiece
  rw [List.cons_append, List.take_append_drop, ← hlength] at h
  show Except.ok ((), (between xs (c :: cs)).paint p.kind p.scope length) = _
  rw [h]
  rfl

theorem run_emit {length : Nat} (kind : TokenKind) (more : Nat)
    (hlength : length = byteLength (c :: cs.take more)) :
    (emit kind length).run (between xs (c :: cs)) = .ok ((), laid xs [.of kind more] (c :: cs)) :=
  run_emitScoped (.of kind more) hlength

theorem run_emit_then {length : Nat} {ps : List Paint} {m : Scan α} {a : α} (kind : TokenKind)
    (more : Nat) (hlength : length = byteLength (c :: cs.take more))
    (h : m.run (between (xs ++ [.of kind (c :: cs.take more)]) (cs.drop more)) =
      .ok (a, laid (xs ++ [.of kind (c :: cs.take more)]) ps (cs.drop more))) :
    (emit kind length >>= fun _ => m).run (between xs (c :: cs)) =
      .ok (a, laid xs (.of kind more :: ps) (c :: cs)) := by
  refine (run_bind_ok (run_emit kind more hlength) _).trans (h.trans ?_)
  rw [laid_cons]
  rfl

theorem run_emitChar (kind : TokenKind) :
    (emitChar kind).run (between xs (c :: cs)) = .ok ((), laid xs [.of kind 0] (c :: cs)) := by
  rw [emitChar, run_bind_ok (run_peek xs _)]
  exact run_emit kind 0 rfl

/-! ### Lengths in bytes and in characters -/

theorem prefixLength_eq_run {p : Char → Bool} (hascii : ∀ c, p c → c.utf8Size = 1)
    (text : List Char) : prefixLength p text = run p text := by
  rw [prefixLength_eq, run, byteLength_eq_length]
  exact fun c hc => hascii c (List.mem_takeWhile_imp hc)

theorem prefixLength_isDigit (text : List Char) : prefixLength isDigit text = run isDigit text :=
  prefixLength_eq_run (fun _ => utf8Size_of_isDigit) text

theorem prefixLength_isHexDigit (text : List Char) :
    prefixLength isHexDigit text = run isHexDigit text :=
  prefixLength_eq_run (fun _ => utf8Size_of_isHexDigit) text

theorem prefixLength_cons {p : Char → Bool} (hc : p c) (cs : List Char) :
    prefixLength p (c :: cs) = byteLength (c :: cs.take (run p cs)) := by
  rw [prefixLength_eq, List.takeWhile_cons, if_pos hc, take_run]

theorem takeBytes_prefixLength {p : Char → Bool} (hc : p c) (cs : List Char) :
    takeBytes (prefixLength p (c :: cs)) (c :: cs) = .ok (c :: cs.take (run p cs)) := by
  rw [prefixLength_cons hc]
  exact takeBytes_take (run p cs + 1) (c :: cs)

theorem lineLength_cons (hc : c ≠ '\n') (cs : List Char) :
    lineLength (c :: cs) = byteLength (c :: cs.take (line cs).length) :=
  prefixLength_cons (p := (· != '\n')) (bne_iff_ne.2 hc) cs

theorem utf8Size_of_bracket {curly square parenthesis scope : String}
    (h : (if c = '{' ∨ c = '}' then some curly else if c = '[' ∨ c = ']' then some square
      else if c = '(' ∨ c = ')' then some parenthesis else none) = some scope) :
    c.utf8Size = 1 := by
  split at h
  · next hc => rcases hc with rfl | rfl <;> rfl
  split at h
  · next hc => rcases hc with rfl | rfl <;> rfl
  split at h
  · next hc => rcases hc with rfl | rfl <;> rfl
  · cases h

theorem dropBytes_mark {d : Char} (hd : d = 'x' ∨ d = 'u' ∨ d = 'U') (rest : List Char) :
    dropBytes 1 (d :: rest) = .ok rest := by
  rcases hd with rfl | rfl | rfl
  · exact dropBytes_take 1 ('x' :: rest)
  · exact dropBytes_take 1 ('u' :: rest)
  · exact dropBytes_take 1 ('U' :: rest)

theorem escapeLength_eq (text : List Char) :
    Scan.escapeLength text = .ok (Pattern.escapeLength text) := by
  unfold Scan.escapeLength Pattern.escapeLength
  split
  · next rest =>
    cases rest with
    | nil => rfl
    | cons d rest =>
      simp only [List.head?_cons]
      split
      · rfl
      split
      · next hd =>
        rw [dropBytes_mark (.inl hd)]
        show Except.ok (if 1 ≤ min (prefixLength isHexDigit rest) 4 then _ else _) = _
        rw [prefixLength_isHexDigit, Nat.min_comm]
        by_cases hdigits : min 4 (run isHexDigit rest) = 0
        · rw [if_pos hdigits, if_neg (by omega)]
        · rw [if_neg hdigits, if_pos (by omega)]
      · next hx =>
        by_cases hu : d = 'u' ∨ d = 'U'
        · rw [if_pos hu, dropBytes_mark (.inr hu)]
          show Except.ok (if _ ≤ prefixLength isHexDigit rest then _ else _) = _
          rw [prefixLength_isHexDigit]
          rcases hu with rfl | rfl <;> rfl
        · rw [if_neg hu]
          rw [not_or] at hu
          rw [if_neg hu.1, if_neg hu.2]
          rfl
  · next hbackslash =>
    split
    · next d rest => exact absurd rfl (hbackslash _)
    · rfl

theorem take_take_pred {n : Nat} (hn : 0 < n) (c : Char) (cs : List Char) :
    c :: cs.take (n - 1) = (c :: cs).take n := by
  rw [← List.take_succ_cons, Nat.sub_add_cancel hn]

/-! ### Strings and comments -/

variable {μ : Type}

theorem run_stringBody (xs : List Lexeme) (mode : μ) (c : Char) (cs : List Char) :
    ∃ closed, stringBody.run (between xs (c :: cs)) =
      .ok (closed, laid xs (Step.inString mode c cs).paints (c :: cs)) ∧
      (Step.inString mode c cs).next = if closed then .code mode else .string mode := by
  unfold Step.inString
  split
  · next hc =>
    subst hc
    refine ⟨true, ?_, rfl⟩
    rw [stringBody, run_bind_ok (run_rest xs _)]
    exact run_bind_ok (run_emit .stringQuote 0 (by rfl)) _
  split
  · next hquote hc =>
    subst hc
    refine ⟨false, ?_, ?_⟩
    · rw [stringBody, run_bind_ok (run_rest xs _)]
      refine (run_lift_ok (escapeLength_eq _) _).trans ?_
      cases h : Pattern.escapeLength ('\\' :: cs) with
      | some n =>
        refine run_bind_ok (run_emit .stringEscape (n - 1) ?_) _
        rw [take_take_pred (escapeLength_bounds h).1, byteLength_take_escapeLength h]
      | none =>
        refine (run_lift_ok (dropBytes_take 1 ('\\' :: cs)) _).trans ?_
        refine run_bind_ok (run_emit .stringEscapeInvalid (min 1 cs.length) ?_) _
        cases cs <;> rfl
    · split <;> rfl
  · next hquote hc =>
    refine ⟨false, ?_, rfl⟩
    rw [stringBody, run_bind_ok (run_rest xs _)]
    split
    · next h => exact absurd (List.cons.inj h).1 hquote
    · next h => exact absurd (List.cons.inj h).1 hc
    · refine run_bind_ok (run_emit .string _ (prefixLength_cons ?_ cs)) _
      simp [hquote, hc]

theorem run_commentBody (xs : List Lexeme) (mode : μ) (outer : Nat) (c : Char) (cs : List Char) :
    ∃ deeper, commentBody.run (between xs (c :: cs)) =
      .ok (deeper, laid xs (Step.inComment mode outer c cs).paints (c :: cs)) ∧
      (deeper = 1 ∧ (Step.inComment mode outer c cs).next = .comment mode (outer + 1) ∨
        deeper = -1 ∧ (Step.inComment mode outer c cs).next = Step.closeComment mode outer ∨
        deeper = 0 ∧ (Step.inComment mode outer c cs).next = .comment mode outer) := by
  unfold Step.inComment
  split
  · next cs =>
    refine ⟨1, ?_, .inl ⟨rfl, rfl⟩⟩
    rw [commentBody, run_bind_ok (run_rest xs _)]
    exact run_bind_ok (run_emit .comment 1 (by rfl)) _
  · next cs =>
    refine ⟨-1, ?_, .inr (.inl ⟨rfl, rfl⟩)⟩
    rw [commentBody, run_bind_ok (run_rest xs _)]
    exact run_bind_ok (run_emit .comment 1 (by rfl)) _
  · next hopen hclose =>
    refine ⟨0, ?_, .inr (.inr ⟨rfl, rfl⟩)⟩
    rw [commentBody, run_bind_ok (run_rest xs _)]
    split
    · next h => exact absurd (List.cons.inj h).2 (hopen _ (List.cons.inj h).1)
    · next h => exact absurd (List.cons.inj h).2 (hclose _ (List.cons.inj h).1)
    · refine run_bind_ok (run_emit .comment _ ?_) _
      split
      · next hc =>
        have hzero : prefixLength (fun c => c != '/' && c != '*') (c :: cs) = 0 := by
          rw [prefixLength_eq, List.takeWhile_cons, if_neg (by rcases hc with rfl | rfl <;> decide)]
          rfl
        rw [hzero]
        rcases hc with rfl | rfl <;> rfl
      · next hc =>
        rw [not_or] at hc
        rw [prefixLength_cons (by simp [hc]), Nat.max_eq_left]
        exact Nat.le_trans (Nat.succ_le_succ (Nat.zero_le _)) (length_le_byteLength (c :: _))

theorem run_layout?_none {mode : μ} (xs : List Lexeme) (h : Step.layout? mode c cs = none) :
    layout?.run (between xs (c :: cs)) = .ok (none, between xs (c :: cs)) := by
  unfold Step.layout? at h
  split at h
  · cases h
  · next hblank =>
    rw [layout?, run_bind_ok (run_rest xs _), List.head?_cons, Option.any_some, if_neg hblank]
    split at h
    · cases h
    · cases h
    · next hopen hline =>
      split
      · next h => exact absurd (List.cons.inj h).2 (hopen _ (List.cons.inj h).1)
      · next h => exact absurd (List.cons.inj h).2 (hline _ (List.cons.inj h).1)
      · rfl

theorem run_layout?_some {mode : μ} {step : Step μ} (xs : List Lexeme)
    (h : Step.layout? mode c cs = some step) :
    ∃ opened, layout?.run (between xs (c :: cs)) =
      .ok (some opened, laid xs step.paints (c :: cs)) ∧
      step.next = if opened then .comment mode 0 else .code mode := by
  unfold Step.layout? at h
  split at h
  · next hblank =>
    obtain rfl := Option.some.inj h
    refine ⟨false, ?_, rfl⟩
    rw [layout?, run_bind_ok (run_rest xs _), List.head?_cons, Option.any_some, if_pos hblank]
    exact run_bind_ok (run_emit .white _ (prefixLength_cons hblank cs)) _
  · next hblank =>
    split at h
    · obtain rfl := Option.some.inj h
      refine ⟨true, ?_, rfl⟩
      rw [layout?, run_bind_ok (run_rest xs _), List.head?_cons, Option.any_some, if_neg hblank]
      exact run_bind_ok (run_emit .comment 1 (by rfl)) _
    · next cs =>
      obtain rfl := Option.some.inj h
      refine ⟨false, ?_, rfl⟩
      rw [layout?, run_bind_ok (run_rest xs _), List.head?_cons, Option.any_some, if_neg hblank]
      exact run_bind_ok (run_emit .comment _ (lineLength_cons (by decide) _)) _
    · cases h

/-! ### The stack -/

variable {φ : Type} {comment string : φ} {code : μ → List φ}

theorem run_comment (xs : List Lexeme) (mode : μ) (outer : Nat) (c : Char) (cs : List Char) :
    (do match ← commentBody with
        | 1 => return comment :: (State.comment mode outer).stack comment string code
        | -1 => return ((State.comment mode outer).stack comment string code).tail
        | _ => return (State.comment mode outer).stack comment string code : Scan (List φ)).run
      (between xs (c :: cs)) = .ok ((Step.inComment mode outer c cs).next.stack comment string code,
        laid xs (Step.inComment mode outer c cs).paints (c :: cs)) := by
  obtain ⟨deeper, hrun, h⟩ := run_commentBody xs mode outer c cs
  refine (run_bind_ok hrun _).trans ?_
  rcases h with ⟨rfl, hnext⟩ | ⟨rfl, hnext⟩ | ⟨rfl, hnext⟩
  · rw [hnext]
    rfl
  · rw [hnext]
    cases outer <;> rfl
  · rw [hnext]
    rfl

theorem run_string (xs : List Lexeme) (mode : μ) (c : Char) (cs : List Char) :
    (do return if ← stringBody then ((State.string mode).stack comment string code).tail
        else (State.string mode).stack comment string code : Scan (List φ)).run
      (between xs (c :: cs)) = .ok ((Step.inString mode c cs).next.stack comment string code,
        laid xs (Step.inString mode c cs).paints (c :: cs)) := by
  obtain ⟨closed, hrun, hnext⟩ := run_stringBody xs mode c cs
  refine (run_bind_ok hrun _).trans ?_
  rw [hnext]
  cases closed <;> rfl

/-! ### The loop -/

variable {step : List φ → Scan (List φ)} {stack stack' : List φ} {g : Grammar μ}

theorem loop_done (h : s.isDone = true) : loop step stack s = some (.ok s) := by
  rw [loop, if_pos h]

theorem loop_turn (hopen : s.isDone = false) (hstep : (step stack).run s = .ok (stack', s'))
    (h : s'.left < s.left ∨ s'.left = s.left ∧ stack'.length < stack.length) :
    loop step stack s = loop step stack' s' := by
  rw [loop, hopen, hstep]
  exact dif_pos h

theorem loop_rule {p : Paint} {ps : List Paint}
    (hstep : (step stack).run (between xs (c :: cs)) = .ok (stack', laid xs (p :: ps) (c :: cs))) :
    loop step stack (between xs (c :: cs)) = loop step stack' (laid xs (p :: ps) (c :: cs)) :=
  loop_turn (isDone_between_cons xs c cs) hstep (.inl (left_laid_lt xs p ps c cs))

/-- Before a character, some turns of the loop do what the rule of the grammar does. -/
def Follows (step : List φ → Scan (List φ)) (stack : State μ → List φ) (g : Grammar μ) : Prop :=
  ∀ xs state c cs, loop step (stack state) (between xs (c :: cs)) =
    loop step (stack (g.step state c cs).next) (laid xs (g.step state c cs).paints (c :: cs))

theorem Follows.loop_eq {stack : State μ → List φ} (h : Follows step stack g) (xs : List Lexeme)
    (state : State μ) (text : List Char) : loop step (stack state) (between xs text) =
      some (.ok (between (xs ++ g.lexemes state text) [])) := by
  fun_induction Grammar.lexemes g state text generalizing xs with
  | case1 state =>
    rw [List.append_nil]
    exact loop_done (isDone_between_nil xs)
  | case2 state c cs s first ih =>
    rw [h xs state c cs]
    refine (ih _).trans ?_
    rw [List.append_assoc]
    rfl

theorem Follows.tokenize_eq {stack : State μ → List φ} (h : Follows step stack g) {start : φ}
    (hstart : stack (.code g.start) = [start]) (source : List Char) :
    tokenize step start source = some (.ok ((g.tokens source).map Token.patch)) := by
  rw [tokenize, ← hstart, ← between_nil, h.loop_eq]
  show some (Except.ok (Lexeme.patches (g.lexemes (.code g.start) source)).reverse) = _
  rw [Lexeme.patches, List.reverse_reverse]
  rfl

end Scan

end SplitEditor
