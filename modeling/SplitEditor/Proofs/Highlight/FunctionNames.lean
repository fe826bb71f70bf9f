import SplitEditor.Proofs.Highlight.Rules

/-! Which words are names of functions. Behind `fn` names are awaited, over layout and over the
names that come, until a token of another kind. Words elsewhere are told from their texts alone. -/

namespace SplitEditor.Script

open Pattern

def wordKinds : List TokenKind := [.constant, .keyword, .storageType, .functionName, .identifier]

theorem wordKind_mem (word : String) : wordKind word ∈ wordKinds := by
  unfold wordKind
  split_ifs <;> decide

theorem mem_actions_of_wordKind {word : String} (h : wordKind word = .functionName) :
    word ∈ actions := by
  unfold wordKind at h
  split_ifs at h
  assumption

def awaitedOver : List TokenKind := [.white, .comment, .functionName]

/-- The last token that is not of such a kind is an `fn`. -/
def BehindFn (passed : List TokenKind) (before : List Token) : Prop :=
  ∃ fn ∈ (before.filter (·.kind ∉ passed)).getLast?, fn.kind = .keyword ∧ fn.text = ['f', 'n']

def awaits (awaited : Bool) (x : Lexeme) : Bool :=
  if x.kind ∈ awaitedOver then awaited else x.kind = .keyword ∧ x.text = ['f', 'n']

/-- A word is a name where one is awaited, unless it begins with a dollar sign. -/
def Named (awaited : Bool) (x : Lexeme) : Prop :=
  x.kind ∈ wordKinds → x.kind =
    if awaited ∧ x.text.head? ≠ some '$' then .functionName else wordKind (String.ofList x.text)

def Names : Bool → List Lexeme → Prop
  | _, [] => True
  | awaited, x :: xs => Named awaited x ∧ Names (awaits awaited x) xs

variable {awaited : Bool} {x y : Lexeme} {xs ys : List Lexeme} {prev : Option Colour}

theorem names_append : Names awaited (xs ++ ys) ↔
    Names awaited xs ∧ Names (xs.foldl awaits awaited) ys := by
  induction xs generalizing awaited with
  | nil => simp [Names]
  | cons x xs ih => rw [List.cons_append, Names, Names, ih, List.foldl_cons, and_assoc]

theorem named_of_not_mem (h : x.kind ∉ wordKinds) : Named awaited x := fun hword => absurd hword h

theorem behindFn_iff (before : List Token) :
    BehindFn awaitedOver before ↔ (before.map Token.lexeme).foldl awaits false := by
  induction before using List.reverseRecOn with
  | nil => simp [BehindFn]
  | append_singleton before t ih =>
    rw [List.map_append, List.foldl_append, List.map_singleton, List.foldl_cons, List.foldl_nil,
      awaits, BehindFn, List.filter_append]
    by_cases hkind : t.kind ∈ awaitedOver
    · have hfilter : [t].filter (·.kind ∉ awaitedOver) = [] := by simp [hkind]
      have hlexeme : t.lexeme.kind ∈ awaitedOver := hkind
      rw [hfilter, List.append_nil, if_pos hlexeme, ← ih]
      rfl
    · have hfilter : [t].filter (·.kind ∉ awaitedOver) = [t] := by simp [hkind]
      have hlexeme : t.lexeme.kind ∉ awaitedOver := hkind
      rw [hfilter, if_neg hlexeme, List.getLast?_append, decide_eq_true_iff]
      simp [Token.lexeme]

/-! ### Joining -/

theorem words_apart {kind : TokenKind} {scope : String} {w w' : List Char}
    (hkind : kind ∈ wordKinds) (h : Form kind scope w) (h' : Form kind scope w') (after : List Char) :
    ¬Ends kind w (w' ++ after) := by
  simp only [wordKinds, List.mem_cons, List.not_mem_nil, or_false] at hkind
  obtain rfl | rfl | rfl | rfl | rfl := hkind
  case inr.inr.inr.inl => exact isName_not_longest h h' after
  all_goals exact isWord_not_longest h.1 h'.1 after

theorem awaits_of_not_mem (h : x.kind ∉ wordKinds) (awaited : Bool) :
    awaits awaited x = (awaited && x.kind ∈ awaitedOver) := by
  have hkeyword : x.kind ≠ .keyword := fun hkind => h (hkind ▸ by decide)
  by_cases hover : x.kind ∈ awaitedOver <;> simp [awaits, hover, hkeyword]

theorem Names.join {after : List Char} (hreads : lexis.Reads prev (x :: xs) after)
    (h : Names awaited (x :: xs)) : Names awaited (x.join xs) := by
  cases xs with
  | nil => exact h
  | cons y xs =>
    rw [Lexeme.join]
    split
    · next hsame =>
      obtain ⟨kind, scope, w⟩ := x
      obtain ⟨_, _, w'⟩ := y
      obtain ⟨rfl, rfl⟩ := hsame
      obtain ⟨hx, hends, hy, -, -⟩ := hreads
      obtain ⟨-, -, hxs⟩ := h
      by_cases hword : kind ∈ wordKinds
      · have hcomment : kind ≠ .comment := by
          rintro rfl
          exact absurd hword (by decide)
        rw [List.flatMap_cons, List.append_assoc] at hends
        exact absurd hends (words_apart hword (hx.resolve_right fun h => hcomment h.1)
          (hy.resolve_right fun h => hcomment h.1) _)
      · refine ⟨named_of_not_mem hword, ?_⟩
        have hawaits (w : List Char) (awaited : Bool) :
            awaits awaited ⟨kind, scope, w⟩ = (awaited && kind ∈ awaitedOver) :=
          awaits_of_not_mem hword awaited
        rw [hawaits, hawaits, Bool.and_assoc, Bool.and_self] at hxs
        rwa [hawaits]
    · exact h

theorem Names.joined {after : List Char} (hreads : lexis.Reads prev xs after)
    (h : Names awaited xs) : Names awaited (Lexeme.joined xs) := by
  induction xs generalizing prev awaited with
  | nil => exact h
  | cons x xs ih =>
    obtain ⟨hx, hends, hxs⟩ := hreads
    have hreads : lexis.Reads prev (x :: Lexeme.joined xs) after := by
      refine ⟨hx, ?_, Lexis.Reads.joined lawful hxs⟩
      rwa [Lexeme.flatMap_text_joined]
    exact Names.join hreads ⟨h.1, ih hxs h.2⟩

/-! ### The reading -/

def Stands : State Mode → Bool → Prop
  | .code mode, awaited => awaited = (mode == .named)
  | .comment mode _, awaited => awaited = (mode == .named)
  | .string mode, awaited => mode = .plain ∧ awaited = false

/-- A step names its words as it should, and leads to where the next one has to stand. -/
structure Naming (awaited : Bool) (s : Step Mode) (text : List Char) : Prop where
  names : Names awaited (Grammar.lay s.paints text).1
  stands : Stands s.next ((Grammar.lay s.paints text).1.foldl awaits awaited)

section One
variable {kind : TokenKind} {more : Nat} {next : State Mode} {c : Char} {cs : List Char}

theorem naming_word (h : Named awaited (.of kind (c :: cs.take more)))
    (hnext : Stands next (awaits awaited (.of kind (c :: cs.take more)))) :
    Naming awaited (.one kind more next) (c :: cs) :=
  ⟨⟨h, trivial⟩, hnext⟩

theorem naming_one (hkind : kind ∉ wordKinds) (hnext : Stands next (awaited && kind ∈ awaitedOver)) :
    Naming awaited (.one kind more next) (c :: cs) :=
  have hword : (Lexeme.of kind (c :: cs.take more)).kind ∉ wordKinds := hkind
  naming_word (named_of_not_mem hword) (awaits_of_not_mem hword awaited ▸ hnext)

end One

theorem names_of_no_words (hxs : ∀ x ∈ xs, x.kind ∉ wordKinds) : Names awaited xs := by
  induction xs generalizing awaited with
  | nil => trivial
  | cons x xs ih =>
    obtain ⟨hx, hxs⟩ := List.forall_mem_cons.1 hxs
    exact ⟨named_of_not_mem hx, ih hxs⟩

theorem foldl_awaits_of_others (hne : xs ≠ [])
    (hxs : ∀ x ∈ xs, x.kind ∉ wordKinds ∧ x.kind ∉ awaitedOver) :
    xs.foldl awaits awaited = false := by
  induction xs generalizing awaited with
  | nil => exact absurd rfl hne
  | cons x xs ih =>
    obtain ⟨⟨hword, hover⟩, hxs⟩ := List.forall_mem_cons.1 hxs
    have hawaits : awaits awaited x = false := by simp [awaits_of_not_mem hword, hover]
    rw [List.foldl_cons, hawaits]
    cases xs with
    | nil => rfl
    | cons y ys => exact ih (List.cons_ne_nil y ys) hxs

variable {mode : Mode} {c : Char} {cs : List Char}

theorem awaits_word {w : List Char} (hdollar : mode = .named → w.head? = some '$') :
    awaits (mode == .named) (.of (wordKind (String.ofList w)) w) =
      ((if String.ofList w = "fn" then Mode.named else .plain) == .named) := by
  by_cases hfn : String.ofList w = "fn"
  · have hw : w = ['f', 'n'] := by simpa using congrArg String.toList hfn
    subst hw
    rfl
  have hw : w ≠ ['f', 'n'] := by
    rintro rfl
    exact hfn rfl
  have hplain : ((if String.ofList w = "fn" then Mode.named else .plain) == .named) = false := by
    rw [if_neg hfn]
    rfl
  rw [hplain, awaits]
  split
  · next hover =>
    have hkinds : ∀ kind ∈ wordKinds, kind ∈ awaitedOver → kind = .functionName := by decide
    have haction := mem_actions_of_wordKind (hkinds _ (wordKind_mem _) hover)
    have hactions : ∀ action ∈ actions, action.toList.head? ≠ some '$' := by decide +kernel
    have hhead := hactions _ haction
    rw [String.toList_ofList] at hhead
    exact beq_eq_false_iff_ne.2 fun hmode => hhead (hdollar hmode)
  · exact decide_eq_false fun h => hw h.2

theorem Rule.naming {s : Step Mode} (h : Rule mode c cs s) :
    Naming (mode == .named) s (c :: cs) := by
  cases h with
  | layout h =>
    obtain ⟨more, rfl⟩ | ⟨more, next, rfl, hnext⟩ := Step.layout?_eq_some h
    · exact naming_one (by decide) (Bool.and_true _)
    · refine naming_one (by decide) ?_
      obtain rfl | rfl := hnext
      · exact Bool.and_true _
      · exact Bool.and_true _
  | name hmode hc =>
    subst hmode
    have hdollar : c ≠ '$' := by
      rintro rfl
      cases hc
    refine naming_word (fun _ => ?_) rfl
    rw [if_pos ⟨rfl, by simpa [Lexeme.of] using hdollar⟩]
    rfl
  | word hc hmode hword =>
    subst hword
    refine naming_word (fun _ => ?_) (awaits_word fun h => congrArg some (hmode h))
    refine (if_neg ?_).symm
    rintro ⟨hnamed, hhead⟩
    exact hhead (congrArg some (hmode (beq_iff_eq.1 hnamed)))
  | symbols hc hopens =>
    split
    · exact naming_one (by decide) (Bool.and_false _)
    · exact naming_one (by decide) (Bool.and_false _)
  | unmatched hc => exact naming_one (by decide) (Bool.and_false _)
  | other hkinds hnext =>
    have hothers : ∀ kind ∈ otherKinds, kind ∉ wordKinds ∧ kind ∉ awaitedOver := by decide
    have hall : ∀ x ∈ (Grammar.lay s.paints (c :: cs)).1,
        x.kind ∉ wordKinds ∧ x.kind ∉ awaitedOver := by
      intro x hx
      obtain ⟨p, hp, hkind⟩ := Grammar.exists_paint_of_mem_lay hx
      exact hkind ▸ hothers p.kind (hkinds p hp)
    have hne : (Grammar.lay s.paints (c :: cs)).1 ≠ [] := List.cons_ne_nil _ _
    refine ⟨names_of_no_words fun x hx => (hall x hx).1, ?_⟩
    rw [foldl_awaits_of_others hne hall]
    obtain hnext | hnext := hnext
    · rw [hnext]
      rfl
    · rw [hnext]
      exact ⟨rfl, rfl⟩

theorem naming_step {state : State Mode} (h : Stands state awaited) (c : Char) (cs : List Char) :
    Naming awaited (grammar.step state c cs) (c :: cs) := by
  cases state with
  | code mode =>
    obtain rfl : awaited = (mode == .named) := h
    exact (rule_code mode c cs).naming
  | string mode =>
    obtain ⟨rfl, rfl⟩ := h
    obtain ⟨kind, more, next, hstep, hkind, hnext⟩ := Step.inString_eq Mode.plain c cs
    have hbody : ∀ kind ∈ TokenKind.stringQuote :: bodyKinds, kind ∉ wordKinds := by decide
    rw [show grammar.step (.string .plain) c cs = _ from hstep]
    refine naming_one (hbody kind hkind) ?_
    obtain rfl | rfl := hnext
    · rfl
    · exact ⟨rfl, rfl⟩
  | comment mode outer =>
    obtain rfl : awaited = (mode == .named) := h
    obtain ⟨more, next, hstep, hnext⟩ := Step.inComment_eq mode outer c cs
    rw [show grammar.step (.comment mode outer) c cs = _ from hstep]
    refine naming_one (by decide) ?_
    obtain rfl | ⟨outer', rfl⟩ := hnext
    · exact Bool.and_true _
    · exact Bool.and_true _

theorem names_lexemes (state : State Mode) (text : List Char) :
    ∀ awaited, Stands state awaited → Names awaited (grammar.lexemes state text) := by
  fun_induction Grammar.lexemes grammar state text with
  | case1 => exact fun _ _ => trivial
  | case2 state c cs step first ih =>
    intro awaited h
    obtain ⟨hnames, hnext⟩ := naming_step h c cs
    exact names_append.2 ⟨hnames, ih _ hnext⟩

/-! ### Function names in scripts -/

structure NamedBehind (before : List Token) (t : Token) : Prop where
  name : BehindFn awaitedOver before → t.text.head? ≠ some '$' → t.kind = .functionName
  word : ¬(BehindFn awaitedOver before ∧ t.text.head? ≠ some '$') →
    t.kind = wordKind (String.ofList t.text)
  action_or_awaited : t.kind = .functionName →
    String.ofList t.text ∈ actions ∨ BehindFn awaitedOver before

/-- A word is a function name if names are awaited, that is if there are only layout and other
function names back to an `fn`. All other words are told from their texts. -/
theorem function_names {source : String} {before after : List Token} {t : Token}
    (h : Language.asl.tokens source = before ++ t :: after) (hword : t.kind ∈ wordKinds) :
    NamedBehind before t := by
  have hreads := (Lexis.covers_of_code lawful sound_code).reads (.code .plain) source.toList none
    trivial
  have hnames : Names false ((Language.asl.tokens source).map Token.lexeme) := by
    rw [Language.tokens, Grammar.map_lexeme_tokens]
    exact Names.joined hreads (names_lexemes (.code .plain) source.toList false rfl)
  rw [h, List.map_append, List.map_cons, names_append] at hnames
  have hnamed := hnames.2.1 hword
  have hbehind := behindFn_iff before
  have hplain (hnot : ¬(BehindFn awaitedOver before ∧ t.text.head? ≠ some '$')) :
      t.kind = wordKind (String.ofList t.text) :=
    hnamed.trans (if_neg fun h => hnot ⟨hbehind.2 h.1, h.2⟩)
  constructor
  case name => exact fun hfn hdollar => hnamed.trans (if_pos ⟨hbehind.1 hfn, hdollar⟩)
  case word => exact hplain
  case action_or_awaited =>
    intro hkind
    by_cases hfn : BehindFn awaitedOver before
    · exact .inr hfn
    · exact .inl (mem_actions_of_wordKind ((hplain fun h => hfn h.1).symm.trans hkind))

/-- The parenthesis ends the wait, over which a comment does not matter. -/
theorem function_names_call : ∃ before after,
    Language.asl.tokens "fn /* f */ g(x" =
        before ++ ⟨.identifier, "identifier", ['x'], 13⟩ :: after ∧
      NamedBehind before ⟨.identifier, "identifier", ['x'], 13⟩ := by
  have h : Language.asl.tokens "fn /* f */ g(x" =
      [⟨.keyword, "keyword", ['f', 'n'], 0⟩, ⟨.white, "white", [' '], 2⟩,
        ⟨.comment, "comment", "/* f */".toList, 3⟩, ⟨.white, "white", [' '], 10⟩,
        ⟨.functionName, "entity.name.function", ['g'], 11⟩,
        ⟨.bracket, "delimiter.parenthesis", ['('], 12⟩] ++
          ⟨.identifier, "identifier", ['x'], 13⟩ :: [] := by decide +kernel
  exact ⟨_, _, h, function_names h (by decide)⟩

/-- The second word behind `fn` is a function name too. -/
theorem second_name_named : ∃ before t after,
    Language.asl.tokens "fn foo bar" = before ++ t :: after ∧ t.kind = .functionName ∧
      String.ofList t.text ∉ actions ∧ ¬BehindFn [.white, .comment] before := by
  refine ⟨[⟨.keyword, "keyword", ['f', 'n'], 0⟩, ⟨.white, "white", [' '], 2⟩,
    ⟨.functionName, "entity.name.function", ['f', 'o', 'o'], 3⟩, ⟨.white, "white", [' '], 6⟩],
    ⟨.functionName, "entity.name.function", ['b', 'a', 'r'], 7⟩, [], ?_⟩
  rw [BehindFn]
  decide +kernel

end SplitEditor.Script
