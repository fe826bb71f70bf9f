import SplitEditor.Proofs.Text.Cut
import SplitEditor.Text.Slice

/-! Where slices are taken. An offset that counts the bytes of a piece of the text is a place to cut
it, so a slice fails only where somebody has miscounted. -/

namespace SplitEditor.Utf8

theorem dropBytes_cons (n : Nat) (c : Char) (text : List Char) :
    dropBytes (c.utf8Size + n) (c :: text) = dropBytes n text := by
  obtain ⟨m, hm⟩ := Nat.exists_eq_succ_of_ne_zero (Nat.ne_of_gt c.utf8Size_pos)
  have hrest : m + n + 1 - c.utf8Size = n := by omega
  rw [show c.utf8Size + n = m + n + 1 by omega, dropBytes, if_neg (by omega), hrest]

theorem takeBytes_cons (n : Nat) (c : Char) (text : List Char) :
    takeBytes (c.utf8Size + n) (c :: text) = (takeBytes n text).map (c :: ·) := by
  obtain ⟨m, hm⟩ := Nat.exists_eq_succ_of_ne_zero (Nat.ne_of_gt c.utf8Size_pos)
  have hrest : m + n + 1 - c.utf8Size = n := by omega
  rw [show c.utf8Size + n = m + n + 1 by omega, takeBytes, if_neg (by omega), hrest]

theorem dropBytes_append (before after : List Char) :
    dropBytes (byteLength before) (before ++ after) = .ok after := by
  induction before with
  | nil => cases after <;> rfl
  | cons c before ih => rw [byteLength_cons, List.cons_append, dropBytes_cons, ih]

theorem takeBytes_append (before after : List Char) :
    takeBytes (byteLength before) (before ++ after) = .ok before := by
  induction before with
  | nil => cases after <;> rfl
  | cons c before ih =>
    rw [byteLength_cons, List.cons_append, takeBytes_cons, ih]
    rfl

theorem slice_append (before piece after : List Char) :
    slice (before ++ (piece ++ after)) (byteLength before) (byteLength before + byteLength piece) =
      .ok piece := by
  rw [slice, ← byteLength_append, ← List.append_assoc, takeBytes_append]
  exact dropBytes_append before piece

theorem dropBytes_take (n : Nat) (text : List Char) :
    dropBytes (byteLength (text.take n)) text = .ok (text.drop n) := by
  have h := dropBytes_append (text.take n) (text.drop n)
  rwa [List.take_append_drop] at h

theorem takeBytes_take (n : Nat) (text : List Char) :
    takeBytes (byteLength (text.take n)) text = .ok (text.take n) := by
  have h := takeBytes_append (text.take n) (text.drop n)
  rwa [List.take_append_drop] at h

theorem find?_charIndices (p : Char → Bool) (start : Nat) (text : List Char) :
    ((charIndices start text).find? fun (_, c) => !p c).elim (start + byteLength text) Prod.fst =
      start + byteLength (text.takeWhile p) := by
  induction text generalizing start with
  | nil => rfl
  | cons c text ih =>
    rw [charIndices, List.find?_cons, List.takeWhile_cons]
    cases hc : p c with
    | true =>
      simp only [hc, Bool.not_true, if_true]
      rw [byteLength_cons, byteLength_cons, ← Nat.add_assoc, ← Nat.add_assoc]
      exact ih _
    | false =>
      simp only [hc, Bool.not_false]
      rfl

theorem prefixLength_eq (p : Char → Bool) (text : List Char) :
    prefixLength p text = byteLength (text.takeWhile p) := by
  have h := find?_charIndices p 0 text
  rw [Nat.zero_add, Nat.zero_add] at h
  rw [← h, prefixLength]
  cases (charIndices 0 text).find? fun (_, c) => !p c <;> rfl

end SplitEditor.Utf8
