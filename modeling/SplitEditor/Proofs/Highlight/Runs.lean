import SplitEditor.Proofs.Highlight.Ending

/-! How far a reading has come. A run takes some of the steps of a reading, from one state to
another, and what it lays on the text stays. Tokens are told character by character here, since
joining neighbours makes no difference to that. -/

namespace SplitEditor

/-! ### Character by character -/

namespace Lexeme
variable {kind : TokenKind} {xs ys : List Lexeme}

def kinds (xs : List Lexeme) : List TokenKind :=
  xs.flatMap fun x => List.replicate x.text.length x.kind

theorem kinds_append (xs ys : List Lexeme) : kinds (xs ++ ys) = kinds xs ++ kinds ys :=
  List.flatMap_append

theorem kinds_cons (x : Lexeme) (xs : List Lexeme) :
    kinds (x :: xs) = List.replicate x.text.length x.kind ++ kinds xs := rfl

theorem length_kinds (xs : List Lexeme) : (kinds xs).length = (xs.flatMap text).length := by
  induction xs with
  | nil => rfl
  | cons x xs ih =>
    rw [kinds_cons, List.length_append, List.length_replicate, ih, List.flatMap_cons,
      List.length_append]

theorem kinds_eq_replicate (h : ∀ x ∈ xs, x.kind = kind) :
    kinds xs = List.replicate (xs.flatMap text).length kind := by
  induction xs with
  | nil => rfl
  | cons x xs ih =>
    obtain ⟨hx, hxs⟩ := List.forall_mem_cons.1 h
    rw [kinds_cons, ih hxs, hx, List.flatMap_cons, List.length_append, List.replicate_add]

theorem mem_kinds {k : TokenKind} (h : k ∈ kinds xs) : ∃ x ∈ xs, k = x.kind := by
  obtain ⟨x, hx, hk⟩ := List.mem_flatMap.1 h
  exact ⟨x, hx, (List.mem_replicate.1 hk).2⟩

theorem kinds_join (x : Lexeme) (xs : List Lexeme) : kinds (join x xs) = kinds (x :: xs) := by
  cases xs with
  | nil => rfl
  | cons y xs =>
    rw [join]
    split
    · next hsame =>
      rw [kinds_cons, kinds_cons, kinds_cons, List.length_append, List.replicate_add, hsame.1,
        List.append_assoc]
    · rfl

theorem kinds_joined (xs : List Lexeme) : kinds (joined xs) = kinds xs := by
  induction xs with
  | nil => rfl
  | cons x xs ih => rw [joined_cons, kinds_join, kinds_cons, ih, kinds_cons]

end Lexeme

namespace Token

def kinds (tokens : List Token) : List TokenKind :=
  tokens.flatMap fun t => List.replicate t.text.length t.kind

theorem kinds_place (start : Nat) (xs : List Lexeme) :
    kinds (Lexeme.place start xs) = Lexeme.kinds xs := by
  induction xs generalizing start with
  | nil => rfl
  | cons x xs ih =>
    have ih := ih (start + Utf8.byteLength x.text)
    rw [kinds] at ih ⊢
    rw [Lexeme.place, List.flatMap_cons, ih, Lexeme.kinds_cons]

def lexeme (t : Token) : Lexeme := ⟨t.kind, t.scope, t.text⟩

theorem map_lexeme_place (start : Nat) (xs : List Lexeme) :
    (Lexeme.place start xs).map lexeme = xs := by
  induction xs generalizing start with
  | nil => rfl
  | cons x xs ih => rw [Lexeme.place, List.map_cons, ih, lexeme]

end Token

theorem Step.extent_pos {μ : Type} (s : Step μ) : 0 < s.extent :=
  Nat.add_pos_left (Nat.succ_pos _) _

theorem reading_induction {motive : List Char → Prop} (nil : motive [])
    (cons : ∀ c cs, (∀ rest, rest <:+ cs → motive rest) → motive (c :: cs)) (text : List Char) :
    motive text := by
  induction hlength : text.length using Nat.strong_induction_on generalizing text with
  | _ n ih =>
    subst hlength
    cases text with
    | nil => exact nil
    | cons c cs =>
      refine cons c cs fun rest hsuffix => ih rest.length ?_ rest rfl
      exact Nat.lt_succ_of_le hsuffix.length_le

namespace Grammar
variable {μ : Type} {g : Grammar μ} {state next last : State μ} {text rest after : List Char}
  {xs ys : List Lexeme}

theorem kinds_tokens (g : Grammar μ) (text : List Char) :
    Token.kinds (g.tokens text) = Lexeme.kinds (g.lexemes (.code g.start) text) := by
  rw [tokens, Token.kinds_place, Lexeme.kinds_joined]

theorem map_lexeme_tokens (g : Grammar μ) (text : List Char) :
    (g.tokens text).map Token.lexeme = Lexeme.joined (g.lexemes (.code g.start) text) := by
  rw [tokens, Token.map_lexeme_place]

/-! ### Runs -/

/-- Steps of a reading: from a state before a text, over lexemes, to a state before the rest. -/
inductive Run (g : Grammar μ) : State μ → List Char → List Lexeme → State μ → List Char → Prop
  | refl (state : State μ) (text : List Char) : Run g state text [] state text
  | head {state next : State μ} {c : Char} {cs rest : List Char} {xs : List Lexeme} (s : Step μ)
    (hstep : g.step state c cs = s) (h : Run g s.next (lay s.paints (c :: cs)).2 xs next rest) :
    Run g state (c :: cs) ((lay s.paints (c :: cs)).1 ++ xs) next rest

namespace Run

theorem trans (h : g.Run state text xs next rest) (h' : g.Run next rest ys last after) :
    g.Run state text (xs ++ ys) last after := by
  induction h with
  | refl => exact h'
  | head s hstep _ ih =>
    rw [List.append_assoc]
    exact .head s hstep (ih h')

theorem one (kind : TokenKind) (more : Nat) {c : Char} {cs : List Char}
    (hstep : g.step state c cs = .one kind more next) :
    g.Run state (c :: cs) [.of kind (c :: cs.take more)] next (cs.drop more) :=
  .head _ hstep (.refl next (cs.drop more))

theorem flatMap_text (h : g.Run state text xs next rest) :
    text = xs.flatMap Lexeme.text ++ rest := by
  induction h with
  | refl => rfl
  | @head _ _ c cs _ _ s _ _ ih =>
    rw [List.flatMap_append, List.append_assoc, ← ih, flatMap_text_lay]

theorem suffix (h : g.Run state text xs next rest) : rest <:+ text := ⟨_, h.flatMap_text.symm⟩

theorem lexemes_eq (h : g.Run state text xs next rest) :
    g.lexemes state text = xs ++ g.lexemes next rest := by
  induction h with
  | refl => rfl
  | head s hstep _ ih => rw [lexemes_cons, hstep, ih, List.append_assoc]

theorem ending_eq (h : g.Run state text xs next rest) :
    g.ending state text = g.ending next rest := by
  induction h with
  | refl => rfl
  | head s hstep _ ih => rw [ending_cons, hstep, ih]

theorem kinds_eq (h : g.Run (.code g.start) text xs next rest) :
    Token.kinds (g.tokens text) = Lexeme.kinds xs ++ Lexeme.kinds (g.lexemes next rest) := by
  rw [kinds_tokens, h.lexemes_eq, Lexeme.kinds_append]

theorem kinds_eq_tokens (h : g.Run (.code g.start) text xs (.code g.start) rest) :
    Token.kinds (g.tokens text) = Lexeme.kinds xs ++ Token.kinds (g.tokens rest) := by
  rw [h.kinds_eq, g.kinds_tokens]

end Run

theorem length_lay {ps : List Paint} (h : (ps.map Paint.extent).sum ≤ text.length) :
    (lay ps text).2.length + (ps.map Paint.extent).sum = text.length := by
  induction ps generalizing text with
  | nil => rfl
  | cons p ps ih =>
    rw [List.map_cons, List.sum_cons, Paint.extent] at h ⊢
    rcases text with _ | ⟨c, text⟩
    · rw [List.length_nil] at h
      omega
    · rw [List.length_cons] at h ⊢
      have hdrop : (ps.map Paint.extent).sum ≤ (text.drop p.more).length := by
        rw [List.length_drop]
        omega
      have ih := ih hdrop
      rw [List.length_drop] at ih
      show (lay ps (text.drop p.more)).2.length + _ = _
      omega

section Laid
variable {s : Step μ}

theorem length_lay_paints (h : s.extent ≤ text.length) :
    (lay s.paints text).2.length + s.extent = text.length := by
  have hsum : (s.paints.map Paint.extent).sum ≤ text.length := h
  exact length_lay hsum

theorem lay_paints_append (h : s.extent ≤ text.length) (rest : List Char) :
    lay s.paints (text ++ rest) = ((lay s.paints text).1, (lay s.paints text).2 ++ rest) := by
  have hsum : (s.paints.map Paint.extent).sum ≤ text.length := h
  exact lay_append hsum rest

end Laid

namespace Run
variable {s : Step μ} {c : Char} {cs before : List Char}

theorem head_append (hstep : g.step state c (cs ++ after) = s)
    (hextent : s.extent ≤ (c :: cs).length)
    (h : g.Run s.next ((lay s.paints (c :: cs)).2 ++ after) ys next rest) :
    g.Run state (c :: cs ++ after) ((lay s.paints (c :: cs)).1 ++ ys) next rest := by
  have hlay := lay_paints_append hextent after
  have hrun : g.Run s.next (lay s.paints (c :: cs ++ after)).2 ys next rest := by rwa [hlay]
  have hhead := Run.head s hstep hrun
  rwa [← List.cons_append, hlay] at hhead

theorem eq_of_refl (hrange : g.InRange) (h : g.Run state after xs next after) :
    state = next ∧ xs = [] := by
  cases h with
  | refl => exact ⟨rfl, rfl⟩
  | @head _ _ c cs _ _ s hstep hrun =>
    have hlength := length_lay_paints (hstep ▸ hrange state c cs)
    have hpos := s.extent_pos
    have hle := hrun.suffix.length_le
    omega

theorem first_within (hrange : g.InRange) (h : g.Run state (c :: cs ++ after) xs next after) :
    ∃ s ys, g.step state c (cs ++ after) = s ∧ s.extent ≤ (c :: cs).length ∧
      xs = (lay s.paints (c :: cs)).1 ++ ys ∧
      g.Run s.next ((lay s.paints (c :: cs)).2 ++ after) ys next after := by
  generalize htext : c :: cs ++ after = text at h
  have hcount := congrArg List.length htext
  rw [List.length_append] at hcount
  cases h with
  | refl =>
    rw [List.length_cons] at hcount
    omega
  | @head _ _ d ds _ ys s hstep hrun =>
    have hlength := length_lay_paints (hstep ▸ hrange state d ds)
    have hle := hrun.suffix.length_le
    have hextent : s.extent ≤ (c :: cs).length := by omega
    have hlay := lay_paints_append hextent after
    rw [htext] at hlay
    rw [hlay] at hrun
    obtain ⟨rfl, rfl⟩ := List.cons.inj htext
    exact ⟨s, ys, hstep, hextent, by rw [hlay], hrun⟩

end Run

end Grammar

end SplitEditor
