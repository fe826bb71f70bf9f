import SplitEditor.Text.Utf16

/-! UTF-16 units of a text read back as that text: a pair of surrogates is one code point again,
and no other unit of a text is a surrogate. -/

namespace SplitEditor

theorem isValidChar_toNat (c : Char) : c.toNat.isValidChar := c.valid

theorem toNat_ofNat {point : Nat} (h : point.isValidChar) : (Char.ofNat point).toNat = point := by
  rw [Char.ofNat, dif_pos h]
  rfl

namespace Utf16

theorem isHigh_eq_true {u : UInt16} :
    isHigh u = true ↔ 0xD800 ≤ u.toNat ∧ u.toNat < 0xDC00 := by
  simp [isHigh, UInt16.le_iff_toNat_le, UInt16.lt_iff_toNat_lt]

theorem isLow_eq_true {u : UInt16} :
    isLow u = true ↔ 0xDC00 ≤ u.toNat ∧ u.toNat ≤ 0xDFFF := by
  simp [isLow, UInt16.le_iff_toNat_le]

theorem points_cons_of_not_high {u : UInt16} (h : isHigh u = false) (units : List UInt16) :
    points (u :: units) = lone u :: points units := by
  cases units with
  | nil => rfl
  | cons v units => simp [points, h]

theorem points_pair {high low : UInt16} (hh : isHigh high = true) (hl : isLow low = true)
    (units : List UInt16) : points (high :: low :: units) = join high low :: points units := by
  simp [points, hh, hl]

theorem split_of_lt {point : Nat} (h : point < 0x10000) : split point = [UInt16.ofNat point] := by
  simp [split, h]

theorem split_of_ge {point : Nat} (h : 0x10000 ≤ point) :
    split point = [UInt16.ofNat (0xD800 + (point - 0x10000) / 1024),
      UInt16.ofNat (0xDC00 + (point - 0x10000) % 1024)] := by
  simp [split, Nat.not_lt.2 h]

theorem points_split {point : Nat} (h : point.isValidChar) (units : List UInt16) :
    points (split point ++ units) = point :: points units := by
  unfold Nat.isValidChar at h
  rcases Nat.lt_or_ge point 0x10000 with hlt | hge
  · have hn : (UInt16.ofNat point).toNat = point := by
      rw [UInt16.toNat_ofNat']
      omega
    have hh : isHigh (UInt16.ofNat point) = false := by
      rw [Bool.eq_false_iff, ne_eq, isHigh_eq_true]
      omega
    have hl : isLow (UInt16.ofNat point) = false := by
      rw [Bool.eq_false_iff, ne_eq, isLow_eq_true]
      omega
    rw [split_of_lt hlt, List.singleton_append, points_cons_of_not_high hh, lone, hh, hl, hn]
    rfl
  · have hhigh : (UInt16.ofNat (0xD800 + (point - 0x10000) / 1024)).toNat =
        0xD800 + (point - 0x10000) / 1024 := by
      rw [UInt16.toNat_ofNat']
      omega
    have hlow : (UInt16.ofNat (0xDC00 + (point - 0x10000) % 1024)).toNat =
        0xDC00 + (point - 0x10000) % 1024 := by
      rw [UInt16.toNat_ofNat']
      omega
    rw [split_of_ge hge, List.cons_append, List.singleton_append, points_pair, join, hhigh, hlow]
    · have hjoin : 0x10000 + ((0xD800 + (point - 0x10000) / 1024) % 1024 * 1024 +
          (0xDC00 + (point - 0x10000) % 1024) % 1024) = point := by omega
      rw [hjoin]
    · rw [isHigh_eq_true]
      omega
    · rw [isLow_eq_true]
      omega

theorem points_encode (text : List Char) : points (encode text) = text.map Char.toNat := by
  induction text with
  | nil => rfl
  | cons c text ih =>
    rw [encode, List.flatMap_cons, points_split (isValidChar_toNat c)]
    exact congrArg _ ih

theorem decode_encode (text : List Char) : decode (encode text) = text := by
  rw [decode, points_encode, List.map_map]
  exact List.map_id'' Char.ofNat_toNat text

end Utf16

end SplitEditor
