import SplitEditor.Proofs.Highlight.Joined

/-! Two runs of tokens put together. Only the two at the seam can be coloured alike, and then they
become one. -/

namespace SplitEditor

namespace Lexeme

def seam : List Lexeme → List Lexeme → List Lexeme
  | [], ys => ys
  | [x], ys => join x ys
  | x :: x' :: xs, ys => x :: seam (x' :: xs) ys

variable {x y : Lexeme} {xs ys zs : List Lexeme}

theorem join_join (h : x.kind = y.kind ∧ x.scope = y.scope) (zs : List Lexeme) :
    join x (join y zs) = join { x with text := x.text ++ y.text } zs := by
  cases zs with
  | nil => exact if_pos h
  | cons z zs =>
    by_cases hyz : y.kind = z.kind ∧ y.scope = z.scope
    · have hxz : x.kind = z.kind ∧ x.scope = z.scope := ⟨h.1.trans hyz.1, h.2.trans hyz.2⟩
      rw [join, if_pos hyz, join, if_pos h, join, if_pos hxz, List.append_assoc]
    · have hxz : ¬(x.kind = z.kind ∧ x.scope = z.scope) :=
        fun hxz => hyz ⟨h.1.symm.trans hxz.1, h.2.symm.trans hxz.2⟩
      rw [join, if_neg hyz, join, if_pos h, join, if_neg hxz]

theorem join_join_of_differ (h : Differ x y) (zs : List Lexeme) :
    join x (join y zs) = x :: join y zs := by
  cases zs with
  | nil => exact if_neg h
  | cons z zs =>
    rw [join]
    split
    · exact if_neg h
    · exact if_neg h

theorem join_seam (x : Lexeme) (ys zs : List Lexeme) :
    join x (seam ys zs) = seam (join x ys) zs := by
  cases ys with
  | nil => rfl
  | cons y ys =>
    by_cases h : x.kind = y.kind ∧ x.scope = y.scope
    · have hjoin : join x (y :: ys) = { x with text := x.text ++ y.text } :: ys := if_pos h
      rw [hjoin]
      cases ys with
      | nil => exact join_join h zs
      | cons y' ys => exact if_pos h
    · have hjoin : join x (y :: ys) = x :: y :: ys := if_neg h
      rw [hjoin]
      cases ys with
      | nil => exact join_join_of_differ h zs
      | cons y' ys => exact if_neg h

theorem joined_append_eq_seam (xs ys : List Lexeme) :
    joined (xs ++ ys) = seam (joined xs) (joined ys) := by
  induction xs with
  | nil => rfl
  | cons x xs ih => rw [List.cons_append, joined_cons, ih, join_seam, joined_cons]

theorem joined_append_congr (h : joined ys = joined zs) (xs : List Lexeme) :
    joined (xs ++ ys) = joined (xs ++ zs) := by
  rw [joined_append_eq_seam, joined_append_eq_seam, h]

end Lexeme

namespace Token

def shift (n : Nat) (t : Token) : Token := { t with start := n + t.start }

def join (s : Token) : List Token → List Token
  | [] => [s]
  | t :: rest =>
    if s.kind = t.kind ∧ s.scope = t.scope then { s with text := s.text ++ t.text } :: rest
    else s :: t :: rest

def seam : List Token → List Token → List Token
  | [], ts => ts
  | [s], ts => join s ts
  | s :: s' :: ss, ts => s :: seam (s' :: ss) ts

end Token

namespace Lexeme

theorem place_add (m n : Nat) (xs : List Lexeme) :
    place (m + n) xs = (place n xs).map (Token.shift m) := by
  induction xs generalizing n with
  | nil => rfl
  | cons x xs ih =>
    rw [place, place, List.map_cons, Nat.add_assoc, ih]
    rfl

theorem place_join (n : Nat) (x : Lexeme) (ys : List Lexeme) : place n (join x ys) =
    Token.join ⟨x.kind, x.scope, x.text, n⟩ (place (n + Utf8.byteLength x.text) ys) := by
  cases ys with
  | nil => rfl
  | cons y ys =>
    rw [join, place, Token.join]
    split
    · rw [place, Utf8.byteLength_append, ← Nat.add_assoc]
    · rw [place, place]

theorem place_seam (n : Nat) (xs ys : List Lexeme) : place n (seam xs ys) =
    Token.seam (place n xs) (place (n + Utf8.byteLength (xs.flatMap text)) ys) := by
  induction xs generalizing n with
  | nil => rfl
  | cons x xs ih =>
    cases xs with
    | nil =>
      rw [seam, place_join, List.flatMap_cons, List.flatMap_nil, List.append_nil]
      rfl
    | cons x' xs =>
      have htext : n + Utf8.byteLength ((x :: x' :: xs).flatMap text) =
          n + Utf8.byteLength x.text + Utf8.byteLength ((x' :: xs).flatMap text) := by
        rw [List.flatMap_cons, Utf8.byteLength_append, Nat.add_assoc]
      rw [seam, place, ih, htext]
      rfl

theorem place_joined_append (xs ys : List Lexeme) : place 0 (joined (xs ++ ys)) =
    Token.seam (place 0 (joined xs))
      ((place 0 (joined ys)).map (Token.shift (Utf8.byteLength (xs.flatMap text)))) := by
  rw [joined_append_eq_seam, place_seam, flatMap_text_joined, ← place_add, Nat.zero_add,
    Nat.add_zero]

end Lexeme

end SplitEditor
