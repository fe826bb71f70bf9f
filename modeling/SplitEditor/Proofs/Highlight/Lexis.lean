import SplitEditor.Proofs.Highlight.Forms

/-! What the texts of each kind look like. Lexemes coloured alike are joined, so the form of a kind
has to hold of what is joined as well: either a text of the form can be put behind another, or it
ends where the form does, so that none can follow. A comment is the one that is told from its
beginning alone. -/

namespace SplitEditor

open Pattern

/-- What texts of a kind and scope look like, and what can come behind a text that has ended. -/
structure Lexis where
  Form : TokenKind → String → List Char → Prop
  Ends : TokenKind → List Char → List Char → Prop

namespace Lexis

/-- What is said about a kind agrees with the rules shared by all grammars, and is kept when texts
that are coloured alike come together. -/
structure Lawful (L : Lexis) : Prop where
  white {w : List Char} (h : RunOf isBlank w) : L.Form .white TokenKind.white.scope w
  quote : L.Form .stringQuote TokenKind.stringQuote.scope ['"']
  escape {w : List Char} (h : IsEscape w) : L.Form .stringEscape TokenKind.stringEscape.scope w
  body {w : List Char} (h : RunOf (fun c => c != '"' && c != '\\') w) :
    L.Form .string TokenKind.string.scope w
  invalid {w : List Char} (h : IsNoEscape w) :
    L.Form .stringEscapeInvalid TokenKind.stringEscapeInvalid.scope w
  comment {w : List Char} (h : ['/', '/'] <+: w ∨ ['/', '*'] <+: w) :
    L.Form .comment TokenKind.comment.scope w
  anywhere {kind : TokenKind} (h : kind ∈ [.white, .stringQuote, .stringEscape, .string,
    .stringEscapeInvalid, .comment]) (w after : List Char) : L.Ends kind w after
  append {kind : TokenKind} {scope : String} {w w' after : List Char} (h : L.Form kind scope w)
    (hends : L.Ends kind w (w' ++ after)) (h' : L.Form kind scope w' ∨ kind = .comment)
    (hends' : L.Ends kind w' after) :
    L.Form kind scope (w ++ w') ∧ L.Ends kind (w ++ w') after

end Lexis

abbrev Colour := TokenKind × String

namespace Lexeme

def colour (x : Lexeme) : Colour := (x.kind, x.scope)

end Lexeme

namespace Lexis
variable {L : Lexis} {prev : Option Colour} {x y : Lexeme} {xs ys : List Lexeme}
  {after : List Char}

def Reads (L : Lexis) : Option Colour → List Lexeme → List Char → Prop
  | _, [], _ => True
  | prev, x :: xs, after =>
    (L.Form x.kind x.scope x.text ∨ x.kind = .comment ∧ prev = some x.colour) ∧
      L.Ends x.kind x.text (xs.flatMap Lexeme.text ++ after) ∧ L.Reads (some x.colour) xs after

theorem reads_append : L.Reads prev (xs ++ ys) after ↔
    L.Reads prev xs (ys.flatMap Lexeme.text ++ after) ∧
      L.Reads ((xs.getLast?.map Lexeme.colour).or prev) ys after := by
  induction xs generalizing prev with
  | nil => simp [Reads]
  | cons x xs ih =>
    have hlast : ((x :: xs).getLast?.map Lexeme.colour).or prev =
        (xs.getLast?.map Lexeme.colour).or (some x.colour) := by
      cases xs with
      | nil => rfl
      | cons y xs => simp [List.getLast?_cons]
    rw [List.cons_append, Reads, Reads, ih, hlast, List.flatMap_append, List.append_assoc,
      and_assoc, and_assoc]

theorem Reads.join (hL : L.Lawful) (h : L.Reads prev (x :: xs) after) :
    L.Reads prev (x.join xs) after := by
  cases xs with
  | nil => exact h
  | cons y xs =>
    rw [Lexeme.join]
    split
    · next hsame =>
      obtain ⟨kind, scope, text⟩ := x
      obtain ⟨_, _, text'⟩ := y
      obtain ⟨rfl, rfl⟩ := hsame
      obtain ⟨hx, hxends, hy, hyends, hxs⟩ := h
      rw [List.flatMap_cons, List.append_assoc] at hxends
      rcases hx with hx | ⟨hcomment, hprev⟩
      · obtain ⟨hform, hends⟩ := hL.append hx hxends (hy.imp_right And.left) hyends
        exact ⟨.inl hform, hends, hxs⟩
      · obtain rfl : kind = .comment := hcomment
        exact ⟨.inr ⟨rfl, hprev⟩, hL.anywhere (by simp) _ _, hxs⟩
    · exact h

theorem Reads.joined (hL : L.Lawful) (h : L.Reads prev xs after) :
    L.Reads prev (Lexeme.joined xs) after := by
  induction xs generalizing prev with
  | nil => exact h
  | cons x xs ih =>
    obtain ⟨hx, hends, hxs⟩ := h
    rw [Lexeme.joined_cons]
    refine Reads.join hL ⟨hx, ?_, ih hxs⟩
    rwa [Lexeme.flatMap_text_joined]

theorem Reads.form_of_split (h : L.Reads prev xs after) (hchain : xs.IsChain Lexeme.Differ)
    (hprev : ∀ y ∈ xs.head?, prev ≠ some y.colour) {before behind : List Lexeme}
    (hsplit : xs = before ++ x :: behind) : L.Form x.kind x.scope x.text ∧
      L.Ends x.kind x.text (behind.flatMap Lexeme.text ++ after) := by
  induction before generalizing xs prev with
  | nil =>
    subst hsplit
    obtain ⟨hx, hends, -⟩ := h
    rcases hx with hx | ⟨-, hx⟩
    · exact ⟨hx, hends⟩
    · exact absurd hx (hprev x rfl)
  | cons y before ih =>
    subst hsplit
    obtain ⟨hdiffer, hchain⟩ := List.isChain_cons.1 hchain
    exact ih h.2.2 hchain
      (fun z hz heq => hdiffer z hz (Prod.mk.inj (Option.some.inj heq))) rfl

end Lexis

def Token.Sound (L : Lexis) (source : List Char) (t : Token) : Prop :=
  ∃ before after, source = before ++ (t.text ++ after) ∧ t.start = Utf8.byteLength before ∧
    L.Form t.kind t.scope t.text ∧ L.Ends t.kind t.text after

theorem Lexis.Reads.sound {L : Lexis} {xs : List Lexeme} (hL : L.Lawful)
    (h : L.Reads none xs []) :
    ∀ t ∈ Lexeme.place 0 (Lexeme.joined xs), t.Sound L (xs.flatMap Lexeme.text) := by
  intro t ht
  obtain ⟨before, x, behind, hsplit, rfl⟩ := Lexeme.exists_split_of_mem_place ht
  obtain ⟨hform, hends⟩ := (Reads.joined hL h).form_of_split (Lexeme.isChain_joined xs)
    (fun _ _ => by simp) hsplit
  rw [List.append_nil] at hends
  refine ⟨before.flatMap Lexeme.text, behind.flatMap Lexeme.text, ?_, Nat.zero_add _, hform, hends⟩
  rw [← Lexeme.flatMap_text_joined, hsplit, List.flatMap_append, List.flatMap_cons]

/-- A comment is only ever gone on with right behind one. -/
def State.Follows {μ : Type} : State μ → Option Colour → Prop
  | .comment _ _, prev => prev = some (.comment, TokenKind.comment.scope)
  | _, _ => True

def Step.Sound {μ : Type} (L : Lexis) (prev : Option Colour) (s : Step μ) (text : List Char) :
    Prop :=
  L.Reads prev (Grammar.lay s.paints text).1 (Grammar.lay s.paints text).2 ∧
    s.next.Follows (((Grammar.lay s.paints text).1.getLast?.map Lexeme.colour).or prev)

def Lexis.Covers {μ : Type} (L : Lexis) (g : Grammar μ) : Prop :=
  ∀ state prev c cs, state.Follows prev → (g.step state c cs).Sound L prev (c :: cs)

namespace Lexis
variable {μ : Type} {L : Lexis} {g : Grammar μ} {state next : State μ} {prev : Option Colour}
  {c : Char} {cs : List Char}

theorem Covers.reads (h : L.Covers g) (state : State μ) (text : List Char) :
    ∀ prev, state.Follows prev → L.Reads prev (g.lexemes state text) [] := by
  fun_induction Grammar.lexemes g state text with
  | case1 => exact fun _ _ => trivial
  | case2 state c cs step first ih =>
    intro prev hstate
    obtain ⟨hlaid, hnext⟩ := h state prev c cs hstate
    refine reads_append.2 ⟨?_, ih _ hnext⟩
    rw [Grammar.flatMap_text_lexemes, List.append_nil]
    exact hlaid

theorem Covers.sound (hL : L.Lawful) (h : L.Covers g) (source : List Char) :
    ∀ t ∈ g.tokens source, t.Sound L source := by
  have hsound := Reads.sound hL (h.reads (.code g.start) source none trivial)
  rwa [Grammar.flatMap_text_lexemes] at hsound

end Lexis

/-! ### The rules shared by all grammars -/

namespace Step
variable {μ : Type} {L : Lexis} {next : State μ} {mode : μ} {prev : Option Colour} {p : Paint}
  {kind : TokenKind} {c : Char} {cs : List Char} {more : Nat}

theorem sound_paint (hform : L.Form p.kind p.scope (c :: cs.take p.more) ∨
      p.kind = .comment ∧ prev = some (p.kind, p.scope))
    (hends : L.Ends p.kind (c :: cs.take p.more) (cs.drop p.more))
    (hnext : next.Follows (some (p.kind, p.scope))) :
    (⟨p, [], next⟩ : Step μ).Sound L prev (c :: cs) :=
  ⟨⟨hform, hends, trivial⟩, hnext⟩

theorem sound_one (hform : L.Form kind kind.scope (c :: cs.take more))
    (hends : L.Ends kind (c :: cs.take more) (cs.drop more))
    (hnext : next.Follows (some (kind, kind.scope))) :
    (one kind more next).Sound L prev (c :: cs) :=
  sound_paint (.inl hform) hends hnext

theorem sound_taken {n : Nat} (hn : 0 < n) (hform : L.Form kind kind.scope ((c :: cs).take n))
    (hends : L.Ends kind ((c :: cs).take n) ((c :: cs).drop n))
    (hnext : next.Follows (some (kind, kind.scope))) :
    (one kind (n - 1) next).Sound L prev (c :: cs) := by
  obtain ⟨more, rfl⟩ := Nat.exists_eq_succ_of_ne_zero hn.ne'
  exact sound_one hform hends hnext

theorem sound_inString (hL : L.Lawful) (prev : Option Colour) (mode : μ) (c : Char)
    (cs : List Char) : (inString mode c cs).Sound L prev (c :: cs) := by
  unfold inString
  split
  · next hc =>
    subst hc
    exact sound_one hL.quote (hL.anywhere (by simp) _ _) trivial
  next hquote =>
  split
  · next hc =>
    subst hc
    split
    · next n hn =>
      exact sound_taken (escapeLength_bounds hn).1 (hL.escape (isEscape_take hn))
        (hL.anywhere (by simp) _ _) trivial
    · refine sound_one (hL.invalid ?_) (hL.anywhere (by simp) _ _) trivial
      cases cs with
      | nil => exact .alone
      | cons d ds =>
        have hmore : min 1 (d :: ds).length = 1 := Nat.min_eq_left (Nat.succ_le_succ (Nat.zero_le _))
        rw [hmore]
        exact .pair d
  · next hescape =>
    exact sound_one (hL.body (word_take_run (by simp [hquote, hescape]) cs))
      (hL.anywhere (by simp) _ _) trivial

theorem sound_inComment (hL : L.Lawful)
    (hprev : prev = some (.comment, TokenKind.comment.scope)) (mode : μ) (outer : Nat) (c : Char)
    (cs : List Char) : (inComment mode outer c cs).Sound L prev (c :: cs) := by
  have hbody (more : Nat) (next : State μ)
      (hnext : next.Follows (some (.comment, TokenKind.comment.scope))) :
      (one .comment more next).Sound L prev (c :: cs) :=
    sound_paint (.inr ⟨rfl, hprev⟩) (hL.anywhere (by simp [Paint.of]) _ _) hnext
  unfold inComment
  split
  · exact hbody _ _ rfl
  · cases outer with
    | zero => exact hbody _ _ trivial
    | succ outer => exact hbody _ _ rfl
  · exact hbody _ _ rfl

theorem sound_layout? (hL : L.Lawful) {s : Step μ} (h : layout? mode c cs = some s)
    (prev : Option Colour) : s.Sound L prev (c :: cs) := by
  unfold layout? at h
  split at h
  · next hc =>
    obtain rfl := Option.some.inj h
    exact sound_one (hL.white (word_take_run hc cs)) (hL.anywhere (by simp) _ _) trivial
  split at h
  · next rest =>
    obtain rfl := Option.some.inj h
    exact sound_one (hL.comment (.inr (List.prefix_append ['/', '*'] _)))
      (hL.anywhere (by simp) _ _) rfl
  · next rest =>
    obtain rfl := Option.some.inj h
    refine sound_one (hL.comment (.inl ?_)) (hL.anywhere (by simp) _ _) trivial
    rw [line_cons_of_ne (by decide), List.length_cons, List.take_succ_cons]
    exact List.prefix_append ['/', '/'] _
  · cases h

theorem not_isBlank_of_layout? (h : layout? mode c cs = none) : isBlank c = false := by
  unfold layout? at h
  split at h
  · cases h
  · next hblank => exact Bool.eq_false_iff.2 hblank

end Step

theorem Lexis.covers_of_code {μ : Type} {L : Lexis} {g : Grammar μ} (hL : L.Lawful)
    (h : ∀ mode prev c cs, (g.code mode c cs).Sound L prev (c :: cs)) : L.Covers g := by
  intro state prev c cs hstate
  cases state with
  | code mode => exact h mode prev c cs
  | string mode => exact Step.sound_inString hL prev mode c cs
  | comment mode outer => exact Step.sound_inComment hL hstate mode outer c cs

end SplitEditor
