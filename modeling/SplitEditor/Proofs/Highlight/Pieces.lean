import SplitEditor.Proofs.Highlight.Joined

/-! What an outline is put together from. It is read piece by piece, as long as no piece could be
taken to go on into what follows it. -/

namespace SplitEditor

open Pattern

namespace Pattern
variable {p : Char → Bool} {tail rest : List Char}

def Stops (p : Char → Bool) (rest : List Char) : Prop := ∀ c ∈ rest.head?, p c = false

@[simp] theorem stops_cons {c : Char} : Stops p (c :: rest) ↔ p c = false :=
  ⟨fun h => h c rfl, fun h _ hd => Option.some.inj hd ▸ h⟩

theorem run_append (htail : ∀ c ∈ tail, p c) (hrest : Stops p rest) :
    run p (tail ++ rest) = tail.length := by
  have hnone : rest.takeWhile p = [] := by
    cases rest with
    | nil => rfl
    | cons c rest => exact List.takeWhile_cons_of_neg (by simp [hrest c rfl])
  rw [run, List.takeWhile_append_of_pos htail, hnone, List.append_nil]

theorem isWord_of_isLetter {c : Char} (h : isLetter c) : isWord c := by
  rw [isWord, h]
  rfl

end Pattern

namespace Grammar
variable {μ : Type} {g : Grammar μ} {state next : State μ}

theorem lexemes_of_step {p : Paint} {c : Char} {rest : List Char} (tail : List Char)
    (h : g.step state c (tail ++ rest) = ⟨p, [], next⟩) (hmore : p.more = tail.length) :
    g.lexemes state (c :: tail ++ rest) =
      ⟨p.kind, p.scope, c :: tail⟩ :: g.lexemes next rest := by
  rw [List.cons_append, lexemes, h]
  simp only [lay, hmore, List.take_left, List.drop_left, List.nil_append, List.cons_append]

end Grammar

namespace Outline

def continues (c : Char) : Bool := isWord c || c == '$' || c == '.' || c == '/'

theorem identifierRun_append {tail rest : List Char} (htail : ∀ c ∈ tail, isWord c)
    (hrest : Stops continues rest) : identifierRun (tail ++ rest) = tail.length := by
  induction tail with
  | nil =>
    cases rest with
    | nil => rfl
    | cons c rest =>
      have hc := hrest c rfl
      simp only [continues, Bool.or_eq_false_iff, beq_eq_false_iff_ne] at hc
      obtain ⟨⟨⟨hword, hdollar⟩, hdot⟩, hslash⟩ := hc
      rw [List.nil_append, identifierRun]
      · simp [hword, hdollar, hdot]
      · exact hslash
  | cons c tail ih =>
    obtain ⟨hc, htail⟩ := List.forall_mem_cons.1 htail
    rw [List.cons_append, identifierRun, ih htail, hc]
    · simp [Nat.add_comm]
    · rintro rfl
      cases hc

/-- What an outline is put together from. -/
inductive Piece where
  | opening
  | closing
  | keyword (word : String)
  | number (n : Nat)
  | quoted (name : List Char)
  | blank (text : List Char)
  | comment (text : List Char)

namespace Piece

@[simp] def text : Piece → List Char
  | opening => ['(']
  | closing => [')']
  | keyword word => word.toList
  | number n => Nat.toDigits 10 n
  | quoted name => '"' :: (name ++ ['"'])
  | blank text => text
  | comment text => ';' :: ';' :: text

def bracket (c : Char) : Lexeme := ⟨.bracket, "bracket.parenthesis", [c]⟩

def quote : Lexeme := .of .stringQuote ['"']

/-- What the piece is read as. -/
def lexemes : Piece → List Lexeme
  | opening => [bracket '(']
  | closing => [bracket ')']
  | keyword word => [.of .keyword word.toList]
  | number n => [.of .number (Nat.toDigits 10 n)]
  | quoted [] => [quote, quote]
  | quoted name => [quote, .of .string name, quote]
  | blank text => [.of .white text]
  | comment text => [.of .comment (';' :: ';' :: text)]

def Sound : Piece → Prop
  | keyword word => word ∈ keywords ∧ word ≠ "" ∧ word.toList.all isLetter
  | quoted name => '"' ∉ name ∧ '\\' ∉ name
  | blank text => text ≠ [] ∧ text.all isBlank
  | comment text => '\n' ∉ text
  | _ => True

@[simp] def EndsBefore (rest : List Char) : Piece → Prop
  | keyword _ => Stops continues rest
  | number _ => Stops isDigit rest
  | blank _ => Stops isBlank rest
  | comment _ => Stops (· != '\n') rest
  | _ => True

section Sound
variable {name text : List Char}

@[simp] theorem sound_opening : opening.Sound := trivial

@[simp] theorem sound_closing : closing.Sound := trivial

@[simp] theorem sound_number {n : Nat} : (number n).Sound := trivial

@[simp] theorem sound_quoted : (quoted name).Sound ↔ '"' ∉ name ∧ '\\' ∉ name := Iff.rfl

@[simp] theorem sound_blank : (blank text).Sound ↔ text ≠ [] ∧ text.all isBlank := Iff.rfl

@[simp] theorem sound_comment : (comment text).Sound ↔ '\n' ∉ text := Iff.rfl

@[simp] theorem sound_keyword : ∀ word ∈ ["module", "import", "export", "func", "type", "table",
    "memory", "global", "tag", "start"], (keyword word).Sound := by
  show ∀ word ∈ _, word ∈ keywords ∧ word ≠ "" ∧ word.toList.all isLetter
  decide +kernel

end Sound

variable {rest : List Char}

theorem read_keyword {word : String} (h : (keyword word).Sound) (hrest : Stops continues rest) :
    grammar.lexemes (.code ()) (word.toList ++ rest) =
      (keyword word).lexemes ++ grammar.lexemes (.code ()) rest := by
  obtain ⟨hword, hempty, hletters⟩ := h
  rw [lexemes]
  cases hchars : word.toList with
  | nil => exact absurd (String.toList_eq_nil_iff.1 hchars) hempty
  | cons c tail =>
    rw [hchars, List.all_eq_true] at hletters
    obtain ⟨hc, htail⟩ := List.forall_mem_cons.1 hletters
    have hrun : identifierRun (tail ++ rest) = tail.length :=
      identifierRun_append (fun d hd => isWord_of_isLetter (htail d hd)) hrest
    have hkind : wordKind (String.ofList (c :: tail)) = .keyword := by
      rw [← hchars, String.ofList_toList, wordKind, if_pos hword]
    refine Grammar.lexemes_of_step (p := .of .keyword tail.length) tail ?_ rfl
    show code c (tail ++ rest) = _
    rw [code, hc]
    simp only [Bool.true_or, if_true, hrun, List.take_left, hkind]
    rfl

theorem isDigit_of_mem_toDigits {n : Nat} {c : Char} (h : c ∈ Nat.toDigits 10 n) : isDigit c := by
  have hdigit := Nat.isDigit_of_mem_toDigits (by decide) (by decide) h
  simpa [Char.isDigit, isDigit, Char.le_def] using hdigit

theorem not_mem_toDigits {c : Char} (h : isDigit c = false) (n : Nat) : c ∉ Nat.toDigits 10 n :=
  fun hc => by simp [isDigit_of_mem_toDigits hc] at h

@[simp] theorem stops_isBlank_toDigits (n : Nat) (rest : List Char) :
    Stops isBlank (Nat.toDigits 10 n ++ rest) := by
  cases hchars : Nat.toDigits 10 n with
  | nil => exact absurd hchars Nat.toDigits_ne_nil
  | cons c tail =>
    have hc : isDigit c := isDigit_of_mem_toDigits (n := n) (hchars ▸ List.mem_cons_self)
    refine stops_cons.2 (Bool.eq_false_iff.2 fun hblank => ?_)
    simp only [isBlank, Bool.or_eq_true, beq_iff_eq] at hblank
    rcases hblank with ((rfl | rfl) | rfl) | rfl <;> exact absurd hc (by decide)

theorem isLetter_of_isDigit {c : Char} (h : isDigit c) : isLetter c = false := by
  simp only [isDigit, Bool.and_eq_true, decide_eq_true_eq] at h
  have hlt {d : Char} (hd : ¬d ≤ '9') : ¬d ≤ c := fun hle => hd (Char.le_trans hle h.2)
  simp only [isLetter, isLower, decide_eq_false (hlt (d := 'a') (by decide)),
    decide_eq_false (hlt (d := 'A') (by decide)), Bool.false_and, Bool.or_self]

theorem code_of_isDigit {c : Char} (h : isDigit c) (cs : List Char) :
    code c cs = .one .number (run isDigit cs) (.code ()) := by
  have hunderscore : (c == '_') = false := beq_false_of_ne fun hc => by
    rw [hc] at h
    exact absurd h (by decide)
  have hdollar : (c == '$') = false := beq_false_of_ne fun hc => by
    rw [hc] at h
    exact absurd h (by decide)
  rw [code, isLetter_of_isDigit h, hunderscore, hdollar, h]
  rfl

theorem read_number (n : Nat) (hrest : Stops isDigit rest) :
    grammar.lexemes (.code ()) (Nat.toDigits 10 n ++ rest) =
      (number n).lexemes ++ grammar.lexemes (.code ()) rest := by
  have hdigits : ∀ c ∈ Nat.toDigits 10 n, isDigit c := fun c => isDigit_of_mem_toDigits
  rw [lexemes]
  cases hchars : Nat.toDigits 10 n with
  | nil => exact absurd hchars Nat.toDigits_ne_nil
  | cons c tail =>
    rw [hchars] at hdigits
    obtain ⟨hc, htail⟩ := List.forall_mem_cons.1 hdigits
    refine Grammar.lexemes_of_step (p := .of .number tail.length) tail ?_ rfl
    show code c (tail ++ rest) = _
    rw [code_of_isDigit hc, run_append htail hrest]
    rfl

theorem read_blank {text : List Char} (h : (blank text).Sound) (hrest : Stops isBlank rest) :
    grammar.lexemes (.code ()) (text ++ rest) =
      (blank text).lexemes ++ grammar.lexemes (.code ()) rest := by
  obtain ⟨hempty, hblank⟩ := h
  cases text with
  | nil => exact absurd rfl hempty
  | cons c tail =>
    obtain ⟨hc, htail⟩ := List.forall_mem_cons.1 (List.all_eq_true.1 hblank)
    refine Grammar.lexemes_of_step (p := .of .white tail.length) tail ?_ rfl
    show code c (tail ++ rest) = _
    have hother : code c (tail ++ rest) = .one .white (run isBlank (tail ++ rest)) (.code ()) := by
      simp only [isBlank, Bool.or_eq_true, beq_iff_eq] at hc
      rcases hc with ((rfl | rfl) | rfl) | rfl <;> rfl
    rw [hother, run_append htail hrest]
    rfl

theorem read_comment {text : List Char} (h : (comment text).Sound)
    (hrest : Stops (· != '\n') rest) :
    grammar.lexemes (.code ()) (';' :: ';' :: text ++ rest) =
      (comment text).lexemes ++ grammar.lexemes (.code ()) rest := by
  have htail : ∀ c ∈ ';' :: text, (c != '\n') = true := fun c hc => bne_iff_ne.2 fun hline => by
    rw [hline] at hc
    exact h (List.mem_of_ne_of_mem (by decide) hc)
  refine Grammar.lexemes_of_step (p := .of .comment (text.length + 1)) (';' :: text) ?_ rfl
  show code ';' (';' :: text ++ rest) = _
  have hcomment : code ';' (';' :: text ++ rest) =
      .one .comment (run (· != '\n') (';' :: text ++ rest)) (.code ()) := rfl
  rw [hcomment, run_append htail hrest]
  rfl

theorem read_bracket {c : Char} (h : c = '(' ∨ c = ')') (rest : List Char) :
    grammar.lexemes (.code ()) (c :: rest) = bracket c :: grammar.lexemes (.code ()) rest := by
  refine Grammar.lexemes_of_step (p := ⟨.bracket, "bracket.parenthesis", 0⟩) [] ?_ rfl
  rcases h with rfl | rfl <;> rfl

theorem read_quoted {name : List Char} (h : (quoted name).Sound) (rest : List Char) :
    grammar.lexemes (.code ()) ('"' :: (name ++ ['"']) ++ rest) =
      (quoted name).lexemes ++ grammar.lexemes (.code ()) rest := by
  have hopen (rest : List Char) : grammar.lexemes (.code ()) ('"' :: rest) =
      quote :: grammar.lexemes (.string ()) rest :=
    Grammar.lexemes_of_step (p := .of .stringQuote 0) [] rfl rfl
  have hclose : grammar.lexemes (.string ()) ('"' :: rest) =
      quote :: grammar.lexemes (.code ()) rest :=
    Grammar.lexemes_of_step (p := .of .stringQuote 0) [] rfl rfl
  rw [List.cons_append, List.append_assoc, List.singleton_append, hopen]
  cases name with
  | nil => rw [List.nil_append, hclose]; rfl
  | cons c tail =>
    have hbody : ∀ d ∈ c :: tail, d ≠ '"' ∧ d ≠ '\\' := fun d hd =>
      ⟨fun hquote => h.1 (hquote ▸ hd), fun hslash => h.2 (hslash ▸ hd)⟩
    obtain ⟨hc, htail⟩ := List.forall_mem_cons.1 hbody
    have hrun : run (fun d => d != '"' && d != '\\') (tail ++ '"' :: rest) = tail.length :=
      run_append (fun d hd => by simp [htail d hd]) (stops_cons.2 rfl)
    have hread : grammar.lexemes (.string ()) (c :: tail ++ '"' :: rest) =
        .of .string (c :: tail) :: grammar.lexemes (.string ()) ('"' :: rest) := by
      refine Grammar.lexemes_of_step (p := .of .string tail.length) tail ?_ rfl
      show Step.inString () c (tail ++ '"' :: rest) = _
      rw [Step.inString, if_neg hc.1, if_neg hc.2, hrun]
      rfl
    rw [hread, hclose]
    rfl

theorem read {piece : Piece} (h : piece.Sound) (hrest : piece.EndsBefore rest) :
    grammar.lexemes (.code ()) (piece.text ++ rest) =
      piece.lexemes ++ grammar.lexemes (.code ()) rest := by
  cases piece with
  | opening => exact read_bracket (.inl rfl) rest
  | closing => exact read_bracket (.inr rfl) rest
  | keyword word => exact read_keyword h hrest
  | number n => exact read_number n hrest
  | quoted name => exact read_quoted h rest
  | blank text => exact read_blank h hrest
  | comment text => exact read_comment h hrest

@[simp] def Readable : List Piece → Prop
  | [] => True
  | piece :: pieces =>
    piece.Sound ∧ piece.EndsBefore (pieces.flatMap text) ∧ Readable pieces

theorem read_all {pieces : List Piece} (h : Readable pieces) :
    grammar.lexemes (.code ()) (pieces.flatMap text) = pieces.flatMap lexemes := by
  induction pieces with
  | nil => rw [List.flatMap_nil, List.flatMap_nil, Grammar.lexemes]
  | cons piece pieces ih =>
    obtain ⟨hsound, hends, hpieces⟩ := h
    rw [List.flatMap_cons, List.flatMap_cons, read hsound hends, ih hpieces]

theorem flatMap_text_lexemes (pieces : List Piece) :
    (pieces.flatMap lexemes).flatMap Lexeme.text = pieces.flatMap text := by
  rw [List.flatMap_assoc]
  refine congrArg (pieces.flatMap ·) (funext fun piece => ?_)
  cases piece with
  | quoted name => cases name <;> simp [lexemes, quote, Lexeme.of]
  | _ => simp [lexemes, bracket, Lexeme.of]

/-! What the pieces are read as, by kinds. -/

def kinds : List TokenKind :=
  [.bracket, .keyword, .comment, .number, .stringQuote, .string, .white]

def brackets : Piece → List Char
  | opening => ['(']
  | closing => [')']
  | _ => []

def quotations : Piece → List (List Char)
  | quoted name => [name].filter (· ≠ [])
  | _ => []

theorem kind_mem_kinds (piece : Piece) : ∀ x ∈ piece.lexemes, x.kind ∈ kinds := by
  cases piece with
  | quoted name => cases name <;> simp [lexemes, quote, Lexeme.of, kinds]
  | _ => simp [lexemes, bracket, Lexeme.of, kinds]

theorem brackets_lexemes (pieces : List Piece) :
    (Lexeme.ofKind .bracket (pieces.flatMap lexemes)).flatMap Lexeme.text =
      pieces.flatMap brackets := by
  rw [Lexeme.ofKind, List.filter_flatMap, List.flatMap_assoc]
  refine congrArg (pieces.flatMap ·) (funext fun piece => ?_)
  cases piece with
  | quoted name => cases name <;> rfl
  | _ => rfl

theorem quotations_lexemes (pieces : List Piece) :
    (Lexeme.ofKind .string (pieces.flatMap lexemes)).map Lexeme.text =
      pieces.flatMap quotations := by
  rw [Lexeme.ofKind, List.filter_flatMap, List.map_flatMap]
  refine congrArg (pieces.flatMap ·) (funext fun piece => ?_)
  cases piece with
  | quoted name => cases name <;> rfl
  | _ => rfl

theorem isChain_string (pieces : List Piece) :
    (pieces.flatMap lexemes).IsChain fun x y => ¬(x.kind = .string ∧ y.kind = .string) := by
  have hchain (piece : Piece) :
      piece.lexemes.IsChain fun x y => ¬(x.kind = .string ∧ y.kind = .string) := by
    cases piece with
    | quoted name => cases name <;> simp [lexemes, quote, Lexeme.of]
    | _ => exact .singleton _
  have hlast (piece : Piece) : ∀ x ∈ piece.lexemes.getLast?, x.kind ≠ .string := by
    cases piece with
    | quoted name => cases name <;> simp [lexemes, quote, Lexeme.of]
    | _ => simp [lexemes, bracket, Lexeme.of]
  induction pieces with
  | nil => exact .nil
  | cons piece pieces ih =>
    rw [List.flatMap_cons, List.isChain_append]
    exact ⟨hchain piece, ih, fun x hx y _ h => hlast piece x hx h.1⟩

end Piece

end Outline

end SplitEditor
