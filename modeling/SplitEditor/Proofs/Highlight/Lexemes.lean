import Mathlib.Data.List.Chain
import SplitEditor.Proofs.Highlight.Extent
import SplitEditor.Proofs.Text.Cut

/-! What lexemes do to a text: those of a reading make up the text that is read, joining neighbours
and placing them at offsets loses none of it, and neighbours that are left differ in colour. -/

namespace SplitEditor

/-! ### Lexemes -/

namespace Lexeme

theorem flatMap_text_join (x : Lexeme) (xs : List Lexeme) :
    (join x xs).flatMap text = x.text ++ xs.flatMap text := by
  cases xs with
  | nil => rfl
  | cons y rest =>
    rw [join]
    split
    · rw [List.flatMap_cons, List.flatMap_cons, List.append_assoc]
    · rfl

theorem flatMap_text_joined (xs : List Lexeme) : (joined xs).flatMap text = xs.flatMap text := by
  induction xs with
  | nil => rfl
  | cons x xs ih =>
    show (join x (joined xs)).flatMap text = _
    rw [flatMap_text_join, ih, List.flatMap_cons]

theorem join_nonempty {x : Lexeme} {xs : List Lexeme} (hx : x.text ≠ [])
    (h : ∀ y ∈ xs, y.text ≠ []) : ∀ y ∈ join x xs, y.text ≠ [] := by
  cases xs with
  | nil => exact List.forall_mem_singleton.2 hx
  | cons y rest =>
    rw [join]
    split
    · refine List.forall_mem_cons.2 ⟨?_, (List.forall_mem_cons.1 h).2⟩
      exact List.append_ne_nil_of_left_ne_nil hx _
    · exact List.forall_mem_cons.2 ⟨hx, h⟩

theorem joined_nonempty {xs : List Lexeme} (h : ∀ x ∈ xs, x.text ≠ []) :
    ∀ x ∈ joined xs, x.text ≠ [] := by
  induction xs with
  | nil => exact h
  | cons x xs ih =>
    obtain ⟨hx, hxs⟩ := List.forall_mem_cons.1 h
    exact join_nonempty hx (ih hxs)

def Differ (x y : Lexeme) : Prop := ¬(x.kind = y.kind ∧ x.scope = y.scope)

theorem isChain_join (x : Lexeme) {xs : List Lexeme} (h : xs.IsChain Differ) :
    (join x xs).IsChain Differ := by
  cases xs with
  | nil => exact .singleton x
  | cons y rest =>
    rw [join]
    split
    · next hsame =>
      -- the joined lexeme is coloured like the one it takes the place of
      cases rest with
      | nil => exact .singleton _
      | cons z rest =>
        obtain ⟨hyz, hrest⟩ := List.isChain_cons_cons.1 h
        refine List.isChain_cons_cons.2 ⟨?_, hrest⟩
        rw [Differ] at hyz ⊢
        rwa [hsame.1, hsame.2]
    · next hdiffer => exact List.isChain_cons_cons.2 ⟨hdiffer, h⟩

theorem isChain_joined (xs : List Lexeme) : (joined xs).IsChain Differ := by
  induction xs with
  | nil => exact .nil
  | cons x xs ih => exact isChain_join x ih

end Lexeme

namespace Grammar
variable {μ : Type}

theorem flatMap_text_lay (ps : List Paint) (cs : List Char) :
    (lay ps cs).1.flatMap Lexeme.text ++ (lay ps cs).2 = cs := by
  induction ps generalizing cs with
  | nil => rfl
  | cons p ps ih =>
    cases cs with
    | nil => rfl
    | cons c cs =>
      have h := ih (cs.drop p.more)
      simp only [lay, List.flatMap_cons, List.cons_append, List.append_assoc]
      rw [h, List.take_append_drop]

theorem lay_suffix (ps : List Paint) (cs : List Char) : (lay ps cs).2 <:+ cs :=
  ⟨_, flatMap_text_lay ps cs⟩

theorem lay_nonempty (ps : List Paint) (cs : List Char) : ∀ x ∈ (lay ps cs).1, x.text ≠ [] := by
  induction ps generalizing cs with
  | nil => simp [lay]
  | cons p ps ih =>
    cases cs with
    | nil => simp [lay]
    | cons c cs =>
      simp only [lay]
      exact List.forall_mem_cons.2 ⟨List.cons_ne_nil _ _, ih _⟩

theorem lexemes_cons (g : Grammar μ) (state : State μ) (c : Char) (cs : List Char) :
    g.lexemes state (c :: cs) = (lay (g.step state c cs).paints (c :: cs)).1 ++
      g.lexemes (g.step state c cs).next (lay (g.step state c cs).paints (c :: cs)).2 := by
  rw [lexemes]
  rfl

theorem flatMap_text_lexemes (g : Grammar μ) (state : State μ) (text : List Char) :
    (g.lexemes state text).flatMap Lexeme.text = text := by
  fun_induction lexemes g state text with
  | case1 => rfl
  | case2 state c cs step first ih =>
    rw [List.cons_append, List.flatMap_cons, List.flatMap_append, ih, flatMap_text_lay]
    exact congrArg (c :: ·) (List.take_append_drop _ cs)

theorem lexemes_nonempty (g : Grammar μ) (state : State μ) (text : List Char) :
    ∀ x ∈ g.lexemes state text, x.text ≠ [] := by
  fun_induction lexemes g state text with
  | case1 => simp
  | case2 state c cs step first ih =>
    refine List.forall_mem_cons.2 ⟨List.cons_ne_nil _ _, fun x hx => ?_⟩
    rcases List.mem_append.1 hx with hx | hx
    · exact lay_nonempty _ _ x hx
    · exact ih x hx

end Grammar

/-! ### Placed lexemes -/

namespace Lexeme

theorem flatMap_text_place (start : Nat) (xs : List Lexeme) :
    (place start xs).flatMap Token.text = xs.flatMap text := by
  induction xs generalizing start with
  | nil => rfl
  | cons x xs ih => rw [place, List.flatMap_cons, List.flatMap_cons, ih]

theorem exists_split_of_mem_place {t : Token} {start : Nat} {xs : List Lexeme}
    (h : t ∈ place start xs) : ∃ before x behind, xs = before ++ x :: behind ∧
      t = ⟨x.kind, x.scope, x.text, start + Utf8.byteLength (before.flatMap text)⟩ := by
  induction xs generalizing start with
  | nil => cases h
  | cons x xs ih =>
    rcases List.mem_cons.1 h with rfl | h
    · exact ⟨[], x, xs, rfl, rfl⟩
    · obtain ⟨before, y, behind, rfl, rfl⟩ := ih h
      refine ⟨x :: before, y, behind, rfl, ?_⟩
      rw [List.flatMap_cons, Utf8.byteLength_append, Nat.add_assoc]

theorem exists_mem_of_mem_place {t : Token} {start : Nat} {xs : List Lexeme}
    (h : t ∈ place start xs) :
    ∃ before after, t.text ∈ xs.map text ∧ xs.flatMap text = before ++ (t.text ++ after) ∧
      t.start = start + Utf8.byteLength before := by
  obtain ⟨before, x, behind, rfl, rfl⟩ := exists_split_of_mem_place h
  refine ⟨before.flatMap text, behind.flatMap text, ?_, ?_, rfl⟩
  · exact List.mem_map_of_mem (List.mem_append_right _ List.mem_cons_self)
  · rw [List.flatMap_append, List.flatMap_cons]

theorem isChain_place (start : Nat) {xs : List Lexeme} (h : xs.IsChain Differ) :
    (place start xs).IsChain fun s t => ¬(s.kind = t.kind ∧ s.scope = t.scope) := by
  induction xs generalizing start with
  | nil => exact .nil
  | cons x xs ih =>
    cases xs with
    | nil => exact .singleton _
    | cons y xs =>
      obtain ⟨hxy, hxs⟩ := List.isChain_cons_cons.1 h
      exact List.isChain_cons_cons.2 ⟨hxy, ih _ hxs⟩

end Lexeme

theorem Grammar.flatMap_text_tokens {μ : Type} (g : Grammar μ) (source : List Char) :
    (g.tokens source).flatMap Token.text = source := by
  rw [tokens, Lexeme.flatMap_text_place, Lexeme.flatMap_text_joined, flatMap_text_lexemes]

end SplitEditor
