import SplitEditor.Proofs.Highlight.Lexemes

/-! What joining neighbours leaves alone: the kinds that occur, all text of a kind, the lexemes of a
kind that never stand side by side, and any point between two that are coloured differently. -/

namespace SplitEditor

def Lexeme.of (kind : TokenKind) (text : List Char) : Lexeme := ⟨kind, kind.scope, text⟩

def Lexeme.ofKind (kind : TokenKind) (xs : List Lexeme) : List Lexeme :=
  xs.filter (·.kind = kind)

def Token.textsOf (kind : TokenKind) (tokens : List Token) : List (List Char) :=
  (tokens.filter (·.kind = kind)).map text

namespace Lexeme
variable {kind : TokenKind} {x y : Lexeme} {xs ys : List Lexeme}

theorem joined_cons (x : Lexeme) (xs : List Lexeme) : joined (x :: xs) = join x (joined xs) := rfl

theorem ofKind_cons (kind : TokenKind) (x : Lexeme) (xs : List Lexeme) : ofKind kind (x :: xs) =
    if x.kind = kind then x :: ofKind kind xs else ofKind kind xs := by
  simp [ofKind, List.filter_cons]

theorem join_cons_of_differ (h : Differ x y) (ys : List Lexeme) :
    join x (y :: ys) = x :: y :: ys := if_neg h

theorem exists_kind_of_mem_join (h : y ∈ join x xs) :
    y.kind = x.kind ∨ ∃ z ∈ xs, y.kind = z.kind := by
  cases xs with
  | nil => exact .inl (congrArg kind (List.mem_singleton.1 h))
  | cons z xs =>
    rw [join] at h
    split at h
    · rcases List.mem_cons.1 h with rfl | h
      · exact .inl rfl
      · exact .inr ⟨y, List.mem_cons_of_mem _ h, rfl⟩
    · rcases List.mem_cons.1 h with rfl | h
      · exact .inl rfl
      · exact .inr ⟨y, h, rfl⟩

theorem exists_kind_of_mem_joined (h : y ∈ joined xs) : ∃ z ∈ xs, y.kind = z.kind := by
  induction xs generalizing y with
  | nil => cases h
  | cons x xs ih =>
    rcases exists_kind_of_mem_join h with hx | ⟨z, hz, hkind⟩
    · exact ⟨x, List.mem_cons_self, hx⟩
    · obtain ⟨w, hw, hwz⟩ := ih hz
      exact ⟨w, List.mem_cons_of_mem _ hw, hkind.trans hwz⟩

theorem flatMap_text_ofKind_joined (kind : TokenKind) (xs : List Lexeme) :
    (ofKind kind (joined xs)).flatMap text = (ofKind kind xs).flatMap text := by
  have hjoin (x : Lexeme) (ys : List Lexeme) :
      (ofKind kind (join x ys)).flatMap text = (ofKind kind (x :: ys)).flatMap text := by
    cases ys with
    | nil => rfl
    | cons y ys =>
      rw [join]
      split
      · next hsame =>
        rw [ofKind_cons, ofKind_cons, ofKind_cons, hsame.1]
        split
        · rw [List.flatMap_cons, List.flatMap_cons, List.flatMap_cons, List.append_assoc]
        · rfl
      · rfl
  induction xs with
  | nil => rfl
  | cons x xs ih =>
    rw [joined_cons, hjoin, ofKind_cons, ofKind_cons]
    split
    · rw [List.flatMap_cons, List.flatMap_cons, ih]
    · exact ih

theorem exists_joined_cons (x : Lexeme) (xs : List Lexeme) : ∃ text rest,
    joined (x :: xs) = ⟨x.kind, x.scope, text⟩ :: rest := by
  rw [joined_cons]
  cases joined xs with
  | nil => exact ⟨x.text, [], rfl⟩
  | cons y ys =>
    rw [join]
    split
    · exact ⟨_, _, rfl⟩
    · exact ⟨x.text, _, rfl⟩

theorem ofKind_joined (h : xs.IsChain fun x y => ¬(x.kind = kind ∧ y.kind = kind)) :
    ofKind kind (joined xs) = ofKind kind xs := by
  induction xs with
  | nil => rfl
  | cons x xs ih =>
    cases xs with
    | nil => rfl
    | cons y xs =>
      obtain ⟨hxy, hxs⟩ := List.isChain_cons_cons.1 h
      have ih := ih hxs
      obtain ⟨text, rest, hjoined⟩ := exists_joined_cons y xs
      rw [joined_cons]
      rw [hjoined] at ih ⊢
      rw [join]
      split
      · next hsame =>
        have hx : x.kind ≠ kind := fun hx => hxy ⟨hx, hsame.1 ▸ hx⟩
        have hy : y.kind ≠ kind := fun hy => hx (hsame.1.trans hy)
        rw [ofKind_cons, if_neg hy] at ih
        rw [ofKind_cons, if_neg hx, ofKind_cons, if_neg hx, ih]
      · rw [ofKind_cons, ih, ← ofKind_cons]

theorem join_append (hxs : xs ≠ []) : join x (xs ++ ys) = join x xs ++ ys := by
  cases xs with
  | nil => exact absurd rfl hxs
  | cons y xs =>
    rw [List.cons_append, join, join]
    split <;> rfl

theorem joined_append (h : ∀ x ∈ xs.getLast?, ∀ y ∈ ys.head?, Differ x y) :
    joined (xs ++ ys) = joined xs ++ joined ys := by
  induction xs with
  | nil => rfl
  | cons x xs ih =>
    cases xs with
    | nil =>
      cases ys with
      | nil => rfl
      | cons y ys =>
        obtain ⟨text, rest, hjoined⟩ := exists_joined_cons y ys
        have hdiffer : Differ x ⟨y.kind, y.scope, text⟩ := h x rfl y rfl
        rw [List.singleton_append, joined_cons, hjoined, join_cons_of_differ hdiffer]
        rfl
    | cons x' xs =>
      have hne : joined (x' :: xs) ≠ [] := by
        obtain ⟨text, rest, hjoined⟩ := exists_joined_cons x' xs
        rw [hjoined]
        exact List.cons_ne_nil _ _
      rw [List.cons_append, joined_cons, ih h, join_append hne]
      rfl

theorem exists_join_join (x y z : Lexeme) :
    ∃ ys y', join z [y] = ys ++ [y'] ∧ join z (join y [x]) = ys ++ join y' [x] := by
  by_cases hzy : z.kind = y.kind ∧ z.scope = y.scope
  · refine ⟨[], { z with text := z.text ++ y.text }, if_pos hzy, ?_⟩
    by_cases hyx : y.kind = x.kind ∧ y.scope = x.scope
    · simp [join, hzy, hyx]
    · simp [join, hzy, hyx]
  · refine ⟨[z], y, if_neg hzy, ?_⟩
    by_cases hyx : y.kind = x.kind ∧ y.scope = x.scope
    · rw [join, if_pos hyx]
      exact if_neg hzy
    · rw [join, if_neg hyx]
      exact if_neg hzy

theorem exists_joined_concat (xs : List Lexeme) (x : Lexeme) :
    xs = [] ∨ ∃ ys y, joined xs = ys ++ [y] ∧ joined (xs ++ [x]) = ys ++ join y [x] := by
  induction xs with
  | nil => exact .inl rfl
  | cons z xs ih =>
    right
    rw [List.cons_append, joined_cons, joined_cons]
    rcases ih with rfl | ⟨ys, y, hxs, hconcat⟩
    · exact ⟨[], z, rfl, rfl⟩
    rw [hxs, hconcat]
    cases ys with
    | nil => exact exists_join_join x y z
    | cons w ys =>
      rw [List.cons_append, List.cons_append, join, join]
      split
      · exact ⟨_ :: ys, y, rfl, rfl⟩
      · exact ⟨z :: w :: ys, y, rfl, rfl⟩

theorem place_append (start : Nat) (xs ys : List Lexeme) : place start (xs ++ ys) =
    place start xs ++ place (start + Utf8.byteLength (xs.flatMap text)) ys := by
  induction xs generalizing start with
  | nil => rfl
  | cons x xs ih =>
    rw [List.cons_append, place, place, ih, List.flatMap_cons, Utf8.byteLength_append,
      Nat.add_assoc, List.cons_append]

theorem mem_place_joined {before after : List Lexeme}
    (hbefore : ∀ y ∈ before.getLast?, Differ y x) (hafter : ∀ y ∈ after.head?, Differ x y) :
    ⟨x.kind, x.scope, x.text, Utf8.byteLength (before.flatMap text)⟩ ∈
      place 0 (joined (before ++ x :: after)) := by
  have hleft : joined (before ++ x :: after) = joined before ++ joined (x :: after) :=
    joined_append fun y hy z hz => Option.some.inj hz ▸ hbefore y hy
  have hright : joined ([x] ++ after) = [x] ++ joined after :=
    joined_append fun y hy z hz => Option.some.inj hy ▸ hafter z hz
  rw [List.singleton_append] at hright
  rw [hleft, hright, place_append, flatMap_text_joined, Nat.zero_add]
  exact List.mem_append_right _ List.mem_cons_self

theorem textsOf_place (kind : TokenKind) (start : Nat) (xs : List Lexeme) :
    Token.textsOf kind (place start xs) = (ofKind kind xs).map text := by
  induction xs generalizing start with
  | nil => rfl
  | cons x xs ih =>
    have ih := ih (start + Utf8.byteLength x.text)
    rw [Token.textsOf] at ih ⊢
    rw [place, List.filter_cons, ofKind_cons]
    simp only [decide_eq_true_eq]
    split
    · rw [List.map_cons, List.map_cons, ih]
    · exact ih

theorem exists_kind_of_mem_place {t : Token} {start : Nat} (h : t ∈ place start xs) :
    ∃ x ∈ xs, t.kind = x.kind := by
  obtain ⟨before, x, behind, rfl, rfl⟩ := exists_split_of_mem_place h
  exact ⟨x, List.mem_append_right _ List.mem_cons_self, rfl⟩

end Lexeme

end SplitEditor
