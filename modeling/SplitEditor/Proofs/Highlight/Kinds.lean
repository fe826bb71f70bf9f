import SplitEditor.Proofs.Highlight.Lexis

/-! Token kinds are sound: in both languages the text of a token is of the form of its kind, and
words, numbers and operators are as long as they can be. -/

namespace SplitEditor

open Pattern

namespace Script

/-- `[a-z_$][A-Za-z0-9_$]*` -/
def IsWord : List Char → Prop :=
  Word (fun c => isLower c || c == '_' || c == '$') fun c => isWord c || c == '$'

/-- `[A-Za-z_][A-Za-z0-9_]*` -/
def IsName : List Char → Prop := Word (fun c => isLetter c || c == '_') isWord

def isTaken (c : Char) : Bool :=
  isLower c || c == '_' || c == '$' || isBlank c || (bracketScope? c).isSome || isDigit c ||
    c ∈ [';', ',', '"', '\'']

/-- The class of texts of each kind. Types are told from other words in outlines only. -/
def Form (kind : TokenKind) (scope : String) (w : List Char) : Prop :=
  match kind with
  | .constant => IsWord w ∧ String.ofList w ∈ booleans
  | .keyword => IsWord w ∧ (String.ofList w ∈ keywords ∨ String.ofList w = "fn")
  | .storageType => IsWord w ∧ String.ofList w ∈ typeKeywords
  | .identifier => IsWord w ∧
    String.ofList w ∉ booleans ++ "fn" :: typeKeywords ++ actions ++ keywords
  | .functionName => IsName w
  | .operator => RunOf isSymbol w ∧ String.ofList w ∈ operators
  | .number => RunOf isDigit w
  | .numberFloat => IsFloat w
  | .numberHex => IsHex w
  | .delimiter => RunOf (fun c => c == ';' || c == ',') w
  | .bracket => RunOf (fun c => bracketScope? c == some scope) w
  | .white => RunOf isBlank w
  | .stringQuote => RunOf (· == '"') w
  | .stringEscape => ManyOf IsEscape w
  | .comment => ['/', '/'] <+: w ∨ ['/', '*'] <+: w
  | .string => RunOf (· != '\\') w
  | .stringEscapeInvalid => ManyOf IsNoEscape w
  | .stringInvalid => Word (fun c => c == '"' || c == '\'') (· != '\n') w
  | .text => RunOf (fun c => !isTaken c) w
  | .type | .typeIdentifier => False

def Ends (kind : TokenKind) (w after : List Char) : Prop :=
  match kind with
  | .constant | .keyword | .storageType | .identifier => Longest IsWord w after
  | .functionName => Longest IsName w after
  | .operator => Longest (RunOf isSymbol) w after
  | .number | .numberFloat | .numberHex => Longest IsNumber w after
  | _ => True

def lexis : Lexis := ⟨Form, Ends⟩

theorem isWord_not_longest {w w' : List Char} (h : IsWord w) (h' : IsWord w')
    (after : List Char) : ¬Longest IsWord w (w' ++ after) := by
  refine Word.not_longest h h' (fun c hc => ?_) after
  simp only [isWord, isLetter, Bool.or_eq_true] at hc ⊢
  tauto

theorem isName_not_longest {w w' : List Char} (h : IsName w) (h' : IsName w')
    (after : List Char) : ¬Longest IsName w (w' ++ after) := by
  refine Word.not_longest h h' (fun c hc => ?_) after
  simp only [isWord, Bool.or_eq_true] at hc ⊢
  tauto

theorem form_append {kind : TokenKind} {scope : String} {w w' after : List Char}
    (h : Form kind scope w) (hends : Ends kind w (w' ++ after))
    (h' : Form kind scope w' ∨ kind = .comment) :
    Form kind scope (w ++ w') ∧ Ends kind (w ++ w') after := by
  by_cases hkind : kind = .comment
  · subst hkind
    exact ⟨h.imp (·.trans (List.prefix_append _ _)) (·.trans (List.prefix_append _ _)), trivial⟩
  replace h' := h'.resolve_right hkind
  cases kind with
  | constant | keyword | storageType | identifier =>
    exact absurd hends (isWord_not_longest h.1 h'.1 after)
  | functionName => exact absurd hends (isName_not_longest h h' after)
  | operator => exact absurd hends (Word.not_longest h.1 h'.1 (fun _ => id) after)
  | number => exact absurd hends (IsNumber.not_longest (.whole h) (.whole h') after)
  | numberFloat => exact absurd hends (IsNumber.not_longest (.float h) (.float h') after)
  | numberHex => exact absurd hends (IsNumber.not_longest (.hex h) (.hex h') after)
  | delimiter | bracket | white | stringQuote | string | text =>
    exact ⟨h.append h'.all, trivial⟩
  | stringInvalid =>
    refine ⟨h.append (h'.forall_mem fun c hc => ?_), trivial⟩
    rcases (by simpa using hc : c = '"' ∨ c = '\'') with rfl | rfl <;> rfl
  | stringEscape | stringEscapeInvalid => exact ⟨h.append h', trivial⟩
  | comment => exact absurd rfl hkind
  | type | typeIdentifier => exact h.elim

theorem lawful : lexis.Lawful where
  white h := h
  quote := .intro rfl (by simp)
  escape h := .one h
  body h := by
    have hbackslash : ∀ c, (c != '"' && c != '\\') → c != '\\' := by simp
    exact h.imp hbackslash hbackslash
  invalid h := .one h
  comment h := h
  anywhere h w after := by
    simp only [List.mem_cons, List.not_mem_nil, or_false] at h
    rcases h with rfl | rfl | rfl | rfl | rfl | rfl <;> exact trivial
  append h hends h' _ := form_append h hends h'

/-! ### The rules -/

variable {c : Char} {cs w after : List Char}

theorem isName_of_mem_actions (h : String.ofList w ∈ actions) : IsName w := by
  have hactions : ∀ action ∈ actions, action ≠ "" ∧ action.toList.all isLetter := by
    decide +kernel
  obtain ⟨hempty, hletters⟩ := hactions _ h
  rw [String.toList_ofList, List.all_eq_true] at hletters
  cases w with
  | nil => exact absurd rfl hempty
  | cons c cs =>
    obtain ⟨hc, hcs⟩ := List.forall_mem_cons.1 hletters
    exact .intro (by simp [hc]) fun d hd => isWord_of_isLetter (hcs d hd)

theorem form_wordKind (h : IsWord w) (scope : String) :
    Form (wordKind (String.ofList w)) scope w := by
  unfold wordKind
  split
  · next hword => exact ⟨h, hword⟩
  split
  · next hword => exact ⟨h, .inr hword⟩
  split
  · next hword => exact ⟨h, hword⟩
  split
  · next hword => exact isName_of_mem_actions hword
  split
  · next hword => exact ⟨h, .inl hword⟩
  · refine ⟨h, ?_⟩
    simp [*]

theorem longest_isName (h : IsWord w) (hlongest : Longest IsWord w after) :
    Longest IsName w after := by
  intro w' hprefix hname
  refine hlongest w' hprefix ?_
  cases h with
  | intro hc =>
    cases hname with
    | intro _ hds =>
      obtain ⟨rfl, -⟩ := List.cons_prefix_cons.1 hprefix
      exact .intro hc fun d hd => by simp [hds d hd]

theorem ends_wordKind (h : IsWord w) (hlongest : Longest IsWord w after) :
    Ends (wordKind (String.ofList w)) w after := by
  unfold wordKind
  split
  · exact hlongest
  split
  · exact hlongest
  split
  · exact hlongest
  split
  · exact longest_isName h hlongest
  split
  · exact hlongest
  · exact hlongest

theorem sound_escapedLiteral (prev : Option Colour) (cs : List Char) :
    (escapedLiteral cs).Sound lexis prev ('\'' :: cs) := by
  have hquote : RunOf (· != '\\') ['\''] := .intro rfl (by simp)
  have hinvalid : (Step.one .stringInvalid 0 (.code Mode.plain)).Sound lexis prev ('\'' :: cs) :=
    Step.sound_one (.intro rfl (by simp)) trivial trivial
  unfold escapedLiteral
  split
  · next n hn =>
    split
    · next hcloses =>
      have hescape := isEscape_take hn
      obtain ⟨more, rfl⟩ := Nat.exists_eq_succ_of_ne_zero (escapeLength_bounds hn).1.ne'
      rcases cs with _ | ⟨d, ds⟩
      · cases hn
      rw [List.drop_succ_cons] at hcloses
      obtain ⟨after, hafter⟩ := List.head?_eq_some_iff.1 hcloses
      have hlay : Grammar.lay [.of .string 0, .of .stringEscape more, .of .string 0]
          ('\'' :: d :: ds) = ([⟨.string, TokenKind.string.scope, ['\'']⟩,
            ⟨.stringEscape, TokenKind.stringEscape.scope, d :: ds.take more⟩,
            ⟨.string, TokenKind.string.scope, ['\'']⟩], after) := by
        simp [Grammar.lay, Paint.of, hafter]
      refine ⟨?_, trivial⟩
      show lexis.Reads prev (Grammar.lay [.of .string 0, .of .stringEscape more, .of .string 0] _).1
        (Grammar.lay [.of .string 0, .of .stringEscape more, .of .string 0] _).2
      rw [hlay]
      exact ⟨.inl hquote, trivial, .inl (.one hescape), trivial, .inl hquote, trivial, trivial⟩
    · exact hinvalid
  · exact hinvalid

theorem sound_charLiteral (prev : Option Colour) (cs : List Char) :
    (charLiteral cs).Sound lexis prev ('\'' :: cs) := by
  unfold charLiteral
  split
  · split
    · next hc => exact Step.sound_one (.intro rfl (by simp [hc])) trivial trivial
    · exact sound_escapedLiteral prev _
  · exact sound_escapedLiteral prev _

theorem isTaken_of_isSymbol {c : Char} (h : isSymbol c) : isTaken c = false := by
  have hsymbols : ['=', '>', '<', '!', '~', '?', ':', '&', '|', '.', '+', '-', '*', '/', '^',
      '%'].all (fun c => !isTaken c) := by decide
  simpa using List.all_eq_true.1 hsymbols c (of_decide_eq_true h)

theorem sound_other (prev : Option Colour) (cs : List Char)
    (hword : ¬(isLower c || c == '_' || c == '$')) (hblank : isBlank c = false) :
    (other c cs).Sound lexis prev (c :: cs) := by
  unfold other
  split
  · next scope hscope =>
    exact Step.sound_paint (.inl (.intro (by simp [hscope]) (by simp))) trivial trivial
  next hbracket =>
  split
  · next hc =>
    simp only
    have hrun : RunOf isSymbol (c :: cs.take (run isSymbol cs)) := word_take_run hc cs
    split
    · next hmem =>
      exact Step.sound_one ⟨hrun, hmem⟩ (longest_take_run isSymbol c cs) trivial
    · have huntaken : ∀ c, isSymbol c → !isTaken c := fun c hc => by simp [isTaken_of_isSymbol hc]
      exact Step.sound_one (hrun.imp huntaken huntaken) trivial trivial
  next hsymbol =>
  have hpoint : c ≠ '.' := by
    rintro rfl
    exact hsymbol rfl
  split
  · next n _ hfloat =>
    obtain ⟨hpos, hle⟩ := floatLength_bounds hfloat
    exact Step.sound_taken hpos (isFloat_take hpoint hfloat)
      (longest_take hle fun w => length_le_floatLength hfloat) trivial
  · next n hfloat hhex =>
    obtain ⟨hpos, hle⟩ := hexLength_bounds hhex
    exact Step.sound_taken hpos (isHex_take hhex)
      (longest_take hle fun w => length_le_hexLength hfloat hhex) trivial
  next hfloat hhex =>
  split
  · next hc =>
    have hle (w : List Char) (hw : w <+: c :: cs) (hnumber : IsNumber w) :
        w.length ≤ run isDigit cs + 1 := by
      rw [← run_cons_of_pos hc]
      exact length_le_run_isDigit hfloat hhex hw hnumber
    exact Step.sound_one (word_take_run hc cs)
      (longest_take (Nat.succ_le_succ (run_le isDigit cs)) hle) trivial
  next hdigit =>
  split
  · next hc =>
    refine Step.sound_one (.intro ?_ (by simp)) trivial trivial
    simpa [hpoint] using hc
  next hdelimiter =>
  split
  · next hc =>
    split
    · next n hn =>
      have hline : n - 1 = run (· != '\n') cs := by
        simp only [unterminatedLength] at hn
        split at hn
        · cases hn
        · rw [← Option.some.inj hn, Nat.add_sub_cancel_left]
          rfl
      rw [hline]
      exact Step.sound_one (word_take_run (by simp [hc]) cs) trivial trivial
    · exact Step.sound_one (.intro (by simp [hc]) (by simp)) trivial trivial
  next hdouble =>
  split
  · next hc =>
    subst hc
    exact sound_charLiteral prev cs
  next hsingle =>
  refine Step.sound_one (.intro ?_ (by simp)) trivial trivial
  simp only [Bool.or_eq_true, not_or] at hword hdelimiter
  simp [isTaken, hword, hblank, hbracket, hdigit, hdelimiter, hdouble, hsingle]

theorem sound_plain (prev : Option Colour) (c : Char) (cs : List Char) :
    (plain c cs).Sound lexis prev (c :: cs) := by
  unfold plain
  split
  · next hc =>
    have hword : IsWord (c :: cs.take (run (fun d => isWord d || d == '$') cs)) :=
      word_take_run hc cs
    exact Step.sound_one (form_wordKind hword _)
      (ends_wordKind hword (longest_take_run _ c cs)) trivial
  · next hc =>
    cases h : Step.layout? Mode.plain c cs with
    | some s => exact Step.sound_layout? lawful h prev
    | none => exact sound_other prev cs hc (Step.not_isBlank_of_layout? h)

theorem sound_code (mode : Mode) (prev : Option Colour) (c : Char) (cs : List Char) :
    (grammar.code mode c cs).Sound lexis prev (c :: cs) := by
  cases mode with
  | plain => exact sound_plain prev c cs
  | named =>
    show (named c cs).Sound lexis prev (c :: cs)
    unfold named
    split
    · next s h => exact Step.sound_layout? lawful h prev
    split
    · next hc =>
      exact Step.sound_one (word_take_run hc cs) (longest_take_run _ c cs) trivial
    · exact sound_plain prev c cs

end Script

namespace Outline

def Opens (text : List Char) : Prop := ['/', '/'] <+: text ∨ ['/', '*'] <+: text

/-- `[A-Za-z_$][A-Za-z0-9_$./]*` -/
def IsIdentifier : List Char → Prop :=
  Word (fun c => isLetter c || c == '_' || c == '$') continues

def isTaken (c : Char) : Bool :=
  isLetter c || c == '_' || c == '$' || isDigit c || c == '"' || (bracketScope? c).isSome ||
    isBlank c

def Form (kind : TokenKind) (scope : String) (w : List Char) : Prop :=
  match kind with
  | .keyword => IsIdentifier w ∧ String.ofList w ∈ keywords
  | .type => IsIdentifier w ∧ String.ofList w ∈ typeKeywords
  | .typeIdentifier => IsIdentifier w ∧ String.ofList w ∉ keywords ++ typeKeywords
  | .number => RunOf isDigit w
  | .bracket => RunOf (fun c => bracketScope? c == some scope) w
  | .white => RunOf isBlank w
  | .stringQuote => RunOf (· == '"') w
  | .stringEscape => ManyOf IsEscape w
  | .comment => ['/', '/'] <+: w ∨ ['/', '*'] <+: w ∨ [';', ';'] <+: w
  | .string => RunOf (fun c => c != '"' && c != '\\') w
  | .stringEscapeInvalid => ManyOf IsNoEscape w
  | .text => RunOf (fun c => !isTaken c) w
  | .constant | .storageType | .functionName | .identifier | .operator | .delimiter
  | .numberFloat | .numberHex | .stringInvalid => False

/-- An identifier goes on up to the first character that cannot belong to it. A slash can, unless
it opens a comment. -/
structure EndsIdentifier (w after : List Char) : Prop where
  stops : ∀ c ∈ after.head?, continues c → Opens after
  runs : ∀ before behind, w = before ++ behind → behind ≠ [] → ¬Opens (behind ++ after)

def Ends (kind : TokenKind) (w after : List Char) : Prop :=
  match kind with
  | .keyword | .type | .typeIdentifier => EndsIdentifier w after
  | .number => Longest (RunOf isDigit) w after
  | _ => True

def lexis : Lexis := ⟨Form, Ends⟩

variable {c : Char} {cs w w' after : List Char}

theorem not_opens (hc : c ≠ '/') (cs : List Char) : ¬Opens (c :: cs) := by
  rintro (h | h)
  · exact hc (List.cons_prefix_cons.1 h).1.symm
  · exact hc (List.cons_prefix_cons.1 h).1.symm

theorem isIdentifier_not_ends (h' : IsIdentifier w') (after : List Char) :
    ¬EndsIdentifier w (w' ++ after) := by
  intro hends
  cases h' with
  | @intro c cs hc _ =>
    have hslash : c ≠ '/' := by
      rintro rfl
      cases hc
    refine not_opens hslash (cs ++ after) (hends.stops c rfl ?_)
    simp only [continues, isWord, Bool.or_eq_true] at hc ⊢
    tauto

theorem form_append {kind : TokenKind} {scope : String} (h : Form kind scope w)
    (hends : Ends kind w (w' ++ after)) (h' : Form kind scope w' ∨ kind = .comment) :
    Form kind scope (w ++ w') ∧ Ends kind (w ++ w') after := by
  by_cases hkind : kind = .comment
  · subst hkind
    have hgrow (l : List Char) (h : l <+: w) : l <+: w ++ w' := h.trans (List.prefix_append w w')
    exact ⟨h.imp (hgrow _) (Or.imp (hgrow _) (hgrow _)), trivial⟩
  replace h' := h'.resolve_right hkind
  cases kind with
  | keyword | type | typeIdentifier => exact absurd hends (isIdentifier_not_ends h'.1 after)
  | number => exact absurd hends (Word.not_longest h h' (fun _ => id) after)
  | bracket | white | stringQuote | string | text =>
    exact ⟨h.append h'.all, trivial⟩
  | stringEscape | stringEscapeInvalid => exact ⟨h.append h', trivial⟩
  | comment => exact absurd rfl hkind
  | constant | storageType | functionName | identifier | operator | delimiter | numberFloat
  | numberHex | stringInvalid => exact h.elim

theorem lawful : lexis.Lawful where
  white h := h
  quote := .intro rfl (by simp)
  escape h := .one h
  body h := h
  invalid h := .one h
  comment h := h.imp_right .inl
  anywhere h w after := by
    simp only [List.mem_cons, List.not_mem_nil, or_false] at h
    rcases h with rfl | rfl | rfl | rfl | rfl | rfl <;> exact trivial
  append h hends h' _ := form_append h hends h'

/-! ### The rules -/

theorem identifierRun_of_opens (h : Opens cs) : identifierRun cs = 0 := by
  obtain ⟨after, rfl⟩ | ⟨after, rfl⟩ := h <;> rfl

theorem identifierRun_of_continues (hc : continues c) (h : ¬Opens (c :: cs)) :
    identifierRun (c :: cs) = 1 + identifierRun cs := by
  by_cases hslash : c = '/'
  · subst hslash
    rcases cs with _ | ⟨d, cs⟩
    · rfl
    rw [identifierRun_slash, if_neg]
    rintro (rfl | rfl)
    · exact h (.inl (List.prefix_append ['/', '/'] cs))
    · exact h (.inr (List.prefix_append ['/', '*'] cs))
  · rw [identifierRun_cons hslash, if_pos]
    simpa [continues, hslash] using hc

theorem identifierRun_of_not_continues (hc : ¬continues c) (cs : List Char) :
    identifierRun (c :: cs) = 0 := by
  simp only [continues, Bool.or_eq_true, not_or, beq_iff_eq] at hc
  rw [identifierRun_cons hc.2, if_neg]
  simp [hc]

theorem forall_mem_take_identifierRun (cs : List Char) :
    ∀ c ∈ cs.take (identifierRun cs), continues c := by
  induction cs with
  | nil => simp
  | cons c cs ih =>
    by_cases hc : continues c
    · by_cases hopens : Opens (c :: cs)
      · simp [identifierRun_of_opens hopens]
      · rw [identifierRun_of_continues hc hopens, Nat.add_comm, List.take_succ_cons]
        exact List.forall_mem_cons.2 ⟨hc, ih⟩
    · simp [identifierRun_of_not_continues hc]

theorem EndsIdentifier.cons (h : EndsIdentifier w after) (hopens : ¬Opens (c :: w ++ after)) :
    EndsIdentifier (c :: w) after where
  stops := h.stops
  runs before behind hsplit hbehind := by
    rcases List.cons_eq_append_iff.1 hsplit with ⟨-, rfl⟩ | ⟨before, -, hw⟩
    · exact hopens
    · exact h.runs before behind hw hbehind

theorem endsIdentifier_nil (h : ∀ c ∈ after.head?, continues c → Opens after) :
    EndsIdentifier [] after where
  stops := h
  runs _ _ hsplit hbehind := absurd (List.append_eq_nil_iff.1 hsplit.symm).2 hbehind

theorem endsIdentifier (cs : List Char) :
    EndsIdentifier (cs.take (identifierRun cs)) (cs.drop (identifierRun cs)) := by
  induction cs with
  | nil => exact endsIdentifier_nil (by simp)
  | cons c cs ih =>
    by_cases hopens : Opens (c :: cs)
    · rw [identifierRun_of_opens hopens]
      exact endsIdentifier_nil fun _ _ _ => hopens
    by_cases hc : continues c
    · rw [identifierRun_of_continues hc hopens, Nat.add_comm]
      refine ih.cons ?_
      rwa [List.cons_append, List.take_append_drop]
    · rw [identifierRun_of_not_continues hc]
      exact endsIdentifier_nil fun d hd hcontinues => absurd (Option.some.inj hd ▸ hcontinues) hc

theorem form_wordKind (h : IsIdentifier w) (scope : String) :
    Form (wordKind (String.ofList w)) scope w := by
  unfold wordKind
  split
  · next hword => exact ⟨h, hword⟩
  split
  · next hword => exact ⟨h, hword⟩
  · next hkeyword htype =>
    refine ⟨h, fun hmem => ?_⟩
    exact (List.mem_append.1 hmem).elim hkeyword htype

theorem ends_wordKind (h : EndsIdentifier w after) :
    Ends (wordKind (String.ofList w)) w after := by
  unfold wordKind
  split
  · exact h
  split
  · exact h
  · exact h

theorem sound_other (prev : Option Colour) (cs : List Char)
    (hword : ¬(isLetter c || c == '_' || c == '$')) (hdigit : ¬isDigit c) (hquote : c ≠ '"')
    (hbracket : bracketScope? c = none) : (other c cs).Sound lexis prev (c :: cs) := by
  unfold other
  split
  · refine Step.sound_one (.inr (.inr ?_)) trivial trivial
    rw [line_cons_of_ne (by decide), List.length_cons, List.take_succ_cons]
    exact List.prefix_append [';', ';'] _
  · cases h : Step.layout? () c cs with
    | some s => exact Step.sound_layout? lawful h prev
    | none =>
      refine Step.sound_one (.intro ?_ (by simp)) trivial trivial
      simp only [Bool.or_eq_true, not_or] at hword
      simp [isTaken, hword, hdigit, hquote, hbracket, Step.not_isBlank_of_layout? h]

theorem sound_code (prev : Option Colour) (c : Char) (cs : List Char) :
    (code c cs).Sound lexis prev (c :: cs) := by
  unfold code
  split
  · next hc =>
    have hslash : c ≠ '/' := by
      rintro rfl
      cases hc
    have hends := (endsIdentifier cs).cons (not_opens hslash _)
    exact Step.sound_one (form_wordKind (.intro hc (forall_mem_take_identifierRun cs)) _)
      (ends_wordKind hends) trivial
  next hword =>
  split
  · next hc =>
    exact Step.sound_one (word_take_run hc cs) (longest_take_run isDigit c cs) trivial
  next hdigit =>
  split
  · next hc => exact Step.sound_one (.intro (by simp [hc]) (by simp)) trivial trivial
  next hquote =>
  split
  · next scope hscope =>
    exact Step.sound_paint (.inl (.intro (by simp [hscope]) (by simp))) trivial trivial
  · next hbracket => exact sound_other prev cs hword hdigit hquote hbracket

end Outline

namespace Language

def lexis : Language → Lexis
  | asl => Script.lexis
  | wast => Outline.lexis

/-- The tokens of a source are all of it, each is of the form of its kind, and each ends where the
form does. -/
structure ColoursSoundly (language : Language) (source : String) : Prop where
  complete : (language.tokens source).flatMap Token.text = source.toList
  sound : ∀ t ∈ language.tokens source, t.Sound language.lexis source.toList

theorem tokens_sound (language : Language) (source : String) :
    language.ColoursSoundly source := by
  cases language with
  | asl =>
    exact ⟨Grammar.flatMap_text_tokens _ _,
      (Lexis.covers_of_code Script.lawful Script.sound_code).sound Script.lawful _⟩
  | wast =>
    exact ⟨Grammar.flatMap_text_tokens _ _,
      (Lexis.covers_of_code Outline.lawful fun _ => Outline.sound_code).sound Outline.lawful _⟩

/-- Two escapes, one behind the other, are one token. -/
theorem tokens_sound_escapes :
    ⟨.stringEscape, "string.escape", "\\n\\x41".toList, 1⟩ ∈ asl.tokens "\"\\n\\x41\"" ∧
      Token.Sound Script.lexis "\"\\n\\x41\"".toList
        ⟨.stringEscape, "string.escape", "\\n\\x41".toList, 1⟩ := by
  have hmem : ⟨.stringEscape, "string.escape", "\\n\\x41".toList, 1⟩ ∈
      asl.tokens "\"\\n\\x41\"" := by decide +kernel
  exact ⟨hmem, (tokens_sound asl _).sound _ hmem⟩

end Language

end SplitEditor
