import SplitEditor.Proofs.Highlight.Nesting

/-! What a step can do. The rules shared by all grammars come first, then those for the code of
scripts. -/

namespace SplitEditor

open Pattern
open Outline (Opens)

namespace Step
variable {μ : Type} {mode : μ} {c : Char} {cs : List Char}

theorem layout?_eq_some {s : Step μ} (h : layout? mode c cs = some s) :
    (∃ more, s = one .white more (.code mode)) ∨
      ∃ more next, s = one .comment more next ∧
        (next = .code mode ∨ next = .comment mode 0) := by
  unfold layout? at h
  split at h
  · exact .inl ⟨_, (Option.some.inj h).symm⟩
  split at h
  · exact .inr ⟨1, _, (Option.some.inj h).symm, .inr rfl⟩
  · exact .inr ⟨_, _, (Option.some.inj h).symm, .inl rfl⟩
  · cases h

theorem inString_eq (mode : μ) (c : Char) (cs : List Char) :
    ∃ kind more next, inString mode c cs = one kind more next ∧ kind ∈ .stringQuote :: bodyKinds ∧
      (next = .code mode ∨ next = .string mode) := by
  by_cases hc : c = '"'
  · subst hc
    exact ⟨.stringQuote, 0, .code mode, rfl, by decide, .inl rfl⟩
  · obtain ⟨kind, more, hstep, hkind, -⟩ := inString_of_ne hc mode cs
    exact ⟨kind, more, .string mode, hstep, List.mem_cons_of_mem _ hkind, .inr rfl⟩

theorem inComment_eq (mode : μ) (outer : Nat) (c : Char) (cs : List Char) :
    ∃ more next, inComment mode outer c cs = one .comment more next ∧
      (next = .code mode ∨ ∃ outer', next = .comment mode outer') := by
  obtain ⟨more, next, hstep, -, ⟨hnext, -⟩ | ⟨outer', hnext, -⟩⟩ := inComment_cases mode outer c cs
  · exact ⟨more, next, hstep, .inl hnext⟩
  · exact ⟨more, next, hstep, .inr ⟨outer', hnext⟩⟩

end Step

theorem Grammar.exists_paint_of_mem_lay {x : Lexeme} {text : List Char} {ps : List Paint}
    (h : x ∈ (lay ps text).1) :
    ∃ p ∈ ps, x.kind = p.kind := by
  induction ps generalizing text with
  | nil => cases h
  | cons p ps ih =>
    cases text with
    | nil => cases h
    | cons c cs =>
      rcases List.mem_cons.1 h with rfl | h
      · exact ⟨p, List.mem_cons_self, rfl⟩
      · obtain ⟨q, hq, hkind⟩ := ih h
        exact ⟨q, List.mem_cons_of_mem p hq, hkind⟩

namespace Script

def otherKinds : List TokenKind :=
  [.bracket, .numberFloat, .numberHex, .number, .delimiter, .stringInvalid, .stringQuote, .string,
    .stringEscape]

inductive Rule (mode : Mode) (c : Char) (cs : List Char) : Step Mode → Prop
  | layout {s : Step Mode} (h : Step.layout? mode c cs = some s) : Rule mode c cs s
  | name (hmode : mode = .named) (hc : isLetter c || c == '_') :
    Rule mode c cs (.one .functionName (run isWord cs) (.code .named))
  | word {word : String} (hc : isLower c || c == '_' || c == '$') (hmode : mode = .named → c = '$')
    (hword : word = String.ofList (c :: cs.take (run (fun d => isWord d || d == '$') cs))) :
    Rule mode c cs (.one (wordKind word) (run (fun d => isWord d || d == '$') cs)
      (.code (if word = "fn" then .named else .plain)))
  | symbols (hc : isSymbol c) (hopens : ¬Opens (c :: cs)) : Rule mode c cs (.one
      (if String.ofList (c :: cs.take (run isSymbol cs)) ∈ operators then .operator else .text)
      (run isSymbol cs) (.code .plain))
  | unmatched (hc : isSymbol c = false) : Rule mode c cs (.one .text 0 (.code .plain))
  | other {s : Step Mode} (hkinds : ∀ p ∈ s.paints, p.kind ∈ otherKinds)
    (hnext : s.next = .code .plain ∨ s.next = .string .plain) : Rule mode c cs s

variable {mode : Mode} {c : Char} {cs : List Char}

theorem Rule.other_one {kind : TokenKind} {more : Nat} {next : State Mode} (h : kind ∈ otherKinds)
    (hnext : next = .code .plain ∨ next = .string .plain) :
    Rule mode c cs (.one kind more next) :=
  .other (fun _ hp => (List.mem_singleton.1 hp) ▸ h) hnext

theorem rule_escapedLiteral (cs' : List Char) : Rule mode c cs (escapedLiteral cs') := by
  have hinvalid : Rule mode c cs (.one .stringInvalid 0 (.code .plain)) :=
    .other_one (by decide) (.inl rfl)
  unfold escapedLiteral
  split
  · split
    · refine .other ?_ (.inl rfl)
      simp [Step.paints, Paint.of, otherKinds]
    · exact hinvalid
  · exact hinvalid

theorem rule_charLiteral (cs' : List Char) : Rule mode c cs (charLiteral cs') := by
  unfold charLiteral
  split
  · split
    · exact .other_one (by decide) (.inl rfl)
    · exact rule_escapedLiteral _
  · exact rule_escapedLiteral _

theorem rule_other (h : Step.layout? mode c cs = none) : Rule mode c cs (Script.other c cs) := by
  unfold Script.other
  split
  · refine .other ?_ (.inl rfl)
    simp [Step.paints, otherKinds]
  split
  · next hc => exact .symbols hc (Step.not_opens_of_layout? h)
  next hsymbol =>
  split
  · exact .other_one (by decide) (.inl rfl)
  · exact .other_one (by decide) (.inl rfl)
  split
  · exact .other_one (by decide) (.inl rfl)
  split
  · exact .other_one (by decide) (.inl rfl)
  split
  · split
    · exact .other_one (by decide) (.inl rfl)
    · exact .other_one (by decide) (.inr rfl)
  split
  · exact rule_charLiteral cs
  · exact .unmatched (Bool.eq_false_iff.2 hsymbol)

theorem layout?_eq_none_iff (mode mode' : Mode) : Step.layout? mode c cs = none ↔
    Step.layout? mode' c cs = none := by
  unfold Step.layout?
  split
  · simp
  · split <;> simp

theorem rule_code (mode : Mode) (c : Char) (cs : List Char) :
    Rule mode c cs (grammar.code mode c cs) := by
  cases mode with
  | plain =>
    show Rule .plain c cs (plain c cs)
    unfold plain
    split
    · next hc => exact .word hc (fun h => by cases h) rfl
    · cases h : Step.layout? Mode.plain c cs with
      | some s => exact .layout h
      | none => exact rule_other h
  | named =>
    show Rule .named c cs (named c cs)
    unfold named
    split
    · next s h => exact .layout h
    next h =>
    split
    · next hc => exact .name rfl hc
    next hname =>
    unfold plain
    split
    · next hc =>
      refine .word hc (fun _ => ?_) rfl
      simp only [isLetter, Bool.or_eq_true, not_or] at hname
      simpa [hname] using hc
    · rw [(layout?_eq_none_iff .named .plain).1 h]
      exact rule_other h

end Script

end SplitEditor
