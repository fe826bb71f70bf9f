import SplitEditor.Text.Codec
import SplitEditor.Proofs.Text.Utf16

/-! The UTF-8 decoder byte by byte, and its reading of well-formed bytes. -/

namespace SplitEditor

def IsTail (b : UInt8) : Prop := 0x80 ≤ b.toNat ∧ b.toNat < 0xC0

theorem isTail_iff {b : UInt8} : IsTail b ↔ 0x80 ≤ b ∧ b < 0xC0 := by
  rw [UInt8.le_iff_toNat_le, UInt8.lt_iff_toNat_lt]
  rfl

namespace IsTail
variable {b : UInt8}

theorem toNat_eq (h : IsTail b) : b.toNat = 0x80 + b.toNat % 64 := by
  unfold IsTail at h
  omega

theorem stray (h : IsTail b) : 0x80 ≤ b.toNat ∧ b.toNat < 0xC2 ∨ 0xF5 ≤ b.toNat := by
  unfold IsTail at h
  omega

end IsTail

def tailByte (bits : Nat) : UInt8 := UInt8.ofNat (0x80 + bits)

theorem toNat_tailByte {bits : Nat} (h : bits < 64) : (tailByte bits).toNat = 0x80 + bits := by
  rw [tailByte, UInt8.toNat_ofNat']
  omega

theorem tailByte_eq {b : UInt8} {bits : Nat} (h : IsTail b) (hbits : bits = b.toNat % 64) :
    tailByte bits = b := by
  rw [hbits, ← UInt8.toNat_inj, toNat_tailByte (Nat.mod_lt _ (by decide))]
  unfold IsTail at h
  omega

theorem toNat_ite {c : Prop} [Decidable c] (a b : UInt8) :
    (if c then a else b).toNat = if c then a.toNat else b.toNat := apply_ite UInt8.toNat c a b

namespace Transcode

theorem pointBytes_one {point : Nat} (h : point < 0x80) :
    pointBytes point = [UInt8.ofNat point] := by
  rw [pointBytes, if_pos h]

theorem pointBytes_two {point : Nat} (h : 0x80 ≤ point ∧ point < 0x800) :
    pointBytes point = [UInt8.ofNat (0xC0 + point / 64), tailByte (point % 64)] := by
  rw [pointBytes, if_neg (by omega), if_pos h.2]
  rfl

theorem pointBytes_three {point : Nat} (h : 0x800 ≤ point ∧ point < 0x10000) :
    pointBytes point = [UInt8.ofNat (0xE0 + point / 4096), tailByte (point / 64 % 64),
      tailByte (point % 64)] := by
  rw [pointBytes, if_neg (by omega), if_neg (by omega), if_pos h.2]
  rfl

theorem pointBytes_four {point : Nat} (h : 0x10000 ≤ point) :
    pointBytes point = [UInt8.ofNat (0xF0 + point / 262144), tailByte (point / 4096 % 64),
      tailByte (point / 64 % 64), tailByte (point % 64)] := by
  rw [pointBytes, if_neg (by omega), if_neg (by omega), if_neg (by omega)]
  rfl

theorem pointBytes_toNat (c : Char) : pointBytes c.toNat = String.utf8EncodeChar c := by
  have hc : c.val.toNat < 0xD800 ∨ 0xDFFF < c.val.toNat ∧ c.val.toNat < 0x110000 := c.valid
  change pointBytes c.val.toNat = _
  simp only [pointBytes, String.utf8EncodeChar]
  generalize c.val.toNat = n at hc
  have h₆ : ∀ m, 0x80 + m = m + 0x80 := fun m => Nat.add_comm _ _
  have h₂ : n < 0x800 → 0xC0 + n / 64 = n / 64 % 32 + 0xC0 := by omega
  have h₃ : n < 0x10000 → 0xE0 + n / 4096 = n / 4096 % 16 + 0xE0 := by omega
  have h₄ : 0xF0 + n / 262144 = n / 262144 % 8 + 0xF0 := by omega
  grind

end Transcode

namespace Utf8

namespace Decoder
variable {b : UInt8} {output : List Char}

theorem opening_ascii (h : b.toNat < 0x80) :
    opening output b = ⟨none, Char.ofNat b.toNat :: output⟩ := by
  rw [opening, if_pos (UInt8.lt_iff_toNat_lt.2 h)]
  rfl

theorem opening_stray (h : 0x80 ≤ b.toNat ∧ b.toNat < 0xC2 ∨ 0xF5 ≤ b.toNat) :
    opening output b = ⟨none, replacement :: output⟩ := by
  simp only [opening, UInt8.lt_iff_toNat_lt, ← UInt8.toNat_inj, UInt8.reduceToNat]
  grind [emit]

def Opens (b : UInt8) (p : Pending) : Prop := ∀ output, opening output b = ⟨some p, output⟩

theorem opens_two (h : 0xC2 ≤ b.toNat ∧ b.toNat < 0xE0) :
    Opens b ⟨b.toNat % 32, 1, 0x80, 0xBF⟩ := by
  intro output
  simp only [opening, UInt8.lt_iff_toNat_lt, ← UInt8.toNat_inj, UInt8.reduceToNat]
  grind [emit]

theorem opens_three (h : 0xE0 ≤ b.toNat ∧ b.toNat < 0xF0) :
    Opens b ⟨b.toNat % 16, 2, if b.toNat = 0xE0 then 0xA0 else 0x80,
      if b.toNat = 0xED then 0x9F else 0xBF⟩ := by
  intro output
  simp only [opening, UInt8.lt_iff_toNat_lt, ← UInt8.toNat_inj, UInt8.reduceToNat]
  grind [emit]

theorem opens_four (h : 0xF0 ≤ b.toNat ∧ b.toNat < 0xF5) :
    Opens b ⟨b.toNat % 8, 3, if b.toNat = 0xF0 then 0x90 else 0x80,
      if b.toNat = 0xF4 then 0x8F else 0xBF⟩ := by
  intro output
  simp only [opening, UInt8.lt_iff_toNat_lt, ← UInt8.toNat_inj, UInt8.reduceToNat]
  grind [emit]

namespace Opens
variable {p q : Pending}

theorem unique (h : Opens b p) (h' : Opens b q) : p = q := by
  have heq := (h []).symm.trans (h' [])
  cases heq
  rfl

theorem not_ascii (h : Opens b p) : ¬b.toNat < 0x80 := by
  intro hascii
  have heq := (h []).symm.trans (opening_ascii hascii)
  cases heq

theorem not_stray (h : Opens b p) : ¬(0x80 ≤ b.toNat ∧ b.toNat < 0xC2 ∨ 0xF5 ≤ b.toNat) := by
  intro hstray
  have heq := (h []).symm.trans (opening_stray hstray)
  cases heq

end Opens

inductive Lead (b : UInt8) : Prop where
  | ascii (h : b.toNat < 0x80)
  | stray (h : 0x80 ≤ b.toNat ∧ b.toNat < 0xC2 ∨ 0xF5 ≤ b.toNat)
  | two (h : 0xC2 ≤ b.toNat ∧ b.toNat < 0xE0)
  | three (h : 0xE0 ≤ b.toNat ∧ b.toNat < 0xF0)
  | four (h : 0xF0 ≤ b.toNat ∧ b.toNat < 0xF5)

theorem lead (b : UInt8) : Lead b := by
  rcases Nat.lt_or_ge b.toNat 0x80 with h₁ | h₁
  · exact .ascii h₁
  rcases Nat.lt_or_ge b.toNat 0xC2 with h₂ | h₂
  · exact .stray (.inl ⟨h₁, h₂⟩)
  rcases Nat.lt_or_ge b.toNat 0xE0 with h₃ | h₃
  · exact .two ⟨h₂, h₃⟩
  rcases Nat.lt_or_ge b.toNat 0xF0 with h₄ | h₄
  · exact .three ⟨h₃, h₄⟩
  rcases Nat.lt_or_ge b.toNat 0xF5 with h₅ | h₅
  · exact .four ⟨h₄, h₅⟩
  · exact .stray (.inr h₅)

theorem opening_cases (b : UInt8) :
    b.toNat < 0x80 ∨ (0x80 ≤ b.toNat ∧ b.toNat < 0xC2 ∨ 0xF5 ≤ b.toNat) ∨
      ∃ p, Opens b p ∧ 0 < p.due ∧ p.low.toNat ≤ p.high.toNat := by
  cases lead b with
  | ascii h => exact .inl h
  | stray h => exact .inr (.inl h)
  | two h =>
    refine .inr (.inr ⟨_, opens_two h, Nat.succ_pos 0, ?_⟩)
    exact (by decide : (0x80 : UInt8).toNat ≤ (0xBF : UInt8).toNat)
  | three h =>
    refine .inr (.inr ⟨_, opens_three h, Nat.succ_pos 1, ?_⟩)
    simp only [toNat_ite, UInt8.reduceToNat]
    split <;> split <;> omega
  | four h =>
    refine .inr (.inr ⟨_, opens_four h, Nat.succ_pos 2, ?_⟩)
    simp only [toNat_ite, UInt8.reduceToNat]
    split <;> split <;> omega

theorem feed_none (output : List Char) (b : UInt8) :
    feed ⟨none, output⟩ b = opening output b := rfl

theorem feed_reject {p : Pending} (h : ¬(p.low.toNat ≤ b.toNat ∧ b.toNat ≤ p.high.toNat)) :
    feed ⟨some p, output⟩ b = opening (replacement :: output) b := by
  simp only [feed, UInt8.le_iff_toNat_le, if_neg h]

theorem feed_last {p : Pending} (h : p.low.toNat ≤ b.toNat ∧ b.toNat ≤ p.high.toNat)
    (hdue : p.due = 1) :
    feed ⟨some p, output⟩ b = ⟨none, Char.ofNat (p.bits * 64 + b.toNat % 64) :: output⟩ := by
  simp only [feed, UInt8.le_iff_toNat_le, if_pos h, if_pos hdue]
  rfl

theorem feed_more {p : Pending} (h : p.low.toNat ≤ b.toNat ∧ b.toNat ≤ p.high.toNat)
    (hdue : p.due ≠ 1) :
    feed ⟨some p, output⟩ b =
      ⟨some ⟨p.bits * 64 + b.toNat % 64, p.due - 1, 0x80, 0xBF⟩, output⟩ := by
  simp only [feed, UInt8.le_iff_toNat_le, if_pos h, if_neg hdue]

end Decoder

/-! ### The bytes of one character -/

inductive Completed : Pending → List UInt8 → Char → Prop
  | last {p : Pending} {b : UInt8} {c : Char}
      (hin : p.low.toNat ≤ b.toNat ∧ b.toNat ≤ p.high.toNat) (hdue : p.due = 1)
      (hc : c = Char.ofNat (p.bits * 64 + b.toNat % 64)) : Completed p [b] c
  | more {p : Pending} {b : UInt8} {bytes : List UInt8} {c : Char}
      (hin : p.low.toNat ≤ b.toNat ∧ b.toNat ≤ p.high.toNat) (hdue : p.due ≠ 1)
      (h : Completed ⟨p.bits * 64 + b.toNat % 64, p.due - 1, 0x80, 0xBF⟩ bytes c) :
    Completed p (b :: bytes) c

theorem Completed.foldl_feed {p : Pending} {bytes : List UInt8} {c : Char}
    (h : Completed p bytes c) (output : List Char) :
    bytes.foldl Decoder.feed ⟨some p, output⟩ = ⟨none, c :: output⟩ := by
  induction h with
  | last hin hdue hc => rw [List.foldl_cons, List.foldl_nil, Decoder.feed_last hin hdue, hc]
  | more hin hdue h ih => rw [List.foldl_cons, Decoder.feed_more hin hdue, ih]

theorem completed_tail_last {bits r : Nat} {low high : UInt8} {c : Char} (hr : r < 64)
    (hin : low.toNat ≤ 0x80 + r ∧ 0x80 + r ≤ high.toNat) (hpoint : bits * 64 + r = c.toNat) :
    Completed ⟨bits, 1, low, high⟩ [tailByte r] c := by
  have hmod : (0x80 + r) % 64 = r := by omega
  refine .last ?_ rfl ?_
  · rwa [toNat_tailByte hr]
  · rw [toNat_tailByte hr, hmod, hpoint, Char.ofNat_toNat]

theorem completed_tail_more {bits due r : Nat} {low high : UInt8} {bytes : List UInt8} {c : Char}
    (hr : r < 64) (hin : low.toNat ≤ 0x80 + r ∧ 0x80 + r ≤ high.toNat) (hdue : due ≠ 1)
    (h : Completed ⟨bits * 64 + r, due - 1, 0x80, 0xBF⟩ bytes c) :
    Completed ⟨bits, due, low, high⟩ (tailByte r :: bytes) c := by
  have hmod : (0x80 + r) % 64 = r := by omega
  refine .more ?_ hdue ?_
  · rwa [toNat_tailByte hr]
  · rwa [toNat_tailByte hr, hmod]

theorem tail_in_range {r : Nat} (hr : r < 64) :
    (0x80 : UInt8).toNat ≤ 0x80 + r ∧ 0x80 + r ≤ (0xBF : UInt8).toNat := by
  simp only [UInt8.reduceToNat]
  omega

theorem completed_of_encode {b : UInt8} {bytes : List UInt8} {c : Char}
    (h : String.utf8EncodeChar c = b :: bytes) :
    b.toNat < 0x80 ∧ b.toNat = c.toNat ∧ bytes = [] ∨
      ∃ p, Decoder.Opens b p ∧ Completed p bytes c := by
  have hvalid := isValidChar_toNat c
  unfold Nat.isValidChar at hvalid
  rw [← Transcode.pointBytes_toNat] at h
  rcases Nat.lt_or_ge c.toNat 0x80 with h₁ | h₁
  · rw [Transcode.pointBytes_one h₁] at h
    obtain ⟨hb, hbytes⟩ := List.cons.inj h
    have hlead : b.toNat = c.toNat := by
      rw [← hb, UInt8.toNat_ofNat_of_lt' (Nat.lt_trans h₁ (by decide))]
    exact .inl ⟨hlead ▸ h₁, hlead, hbytes.symm⟩
  refine .inr ?_
  -- the widths differ in the opening byte, all further bytes carry six bits each
  have hmod : c.toNat % 64 < 64 := Nat.mod_lt _ (by decide)
  rcases Nat.lt_or_ge c.toNat 0x800 with h₂ | h₂
  · rw [Transcode.pointBytes_two ⟨h₁, h₂⟩] at h
    obtain ⟨hb, rfl⟩ := List.cons.inj h
    have hlead : b.toNat = 0xC0 + c.toNat / 64 := by
      rw [← hb, UInt8.toNat_ofNat_of_lt' (show _ < 256 by omega)]
    refine ⟨_, Decoder.opens_two (by omega), ?_⟩
    exact completed_tail_last hmod (tail_in_range hmod) (by omega)
  have hmod' : c.toNat / 64 % 64 < 64 := Nat.mod_lt _ (by decide)
  rcases Nat.lt_or_ge c.toNat 0x10000 with h₃ | h₃
  · rw [Transcode.pointBytes_three ⟨h₂, h₃⟩] at h
    obtain ⟨hb, rfl⟩ := List.cons.inj h
    have hlead : b.toNat = 0xE0 + c.toNat / 4096 := by
      rw [← hb, UInt8.toNat_ofNat_of_lt' (show _ < 256 by omega)]
    refine ⟨_, Decoder.opens_three (by omega), ?_⟩
    refine completed_tail_more hmod' ?_ (by decide)
      (completed_tail_last hmod (tail_in_range hmod) (by omega))
    simp only [toNat_ite, UInt8.reduceToNat]
    split <;> split <;> omega
  · rw [Transcode.pointBytes_four h₃] at h
    obtain ⟨hb, rfl⟩ := List.cons.inj h
    have hlead : b.toNat = 0xF0 + c.toNat / 262144 := by
      rw [← hb, UInt8.toNat_ofNat_of_lt' (show _ < 256 by omega)]
    refine ⟨_, Decoder.opens_four (by omega), ?_⟩
    refine completed_tail_more (Nat.mod_lt _ (by decide)) ?_ (by decide)
      (completed_tail_more hmod' (tail_in_range hmod') (by decide)
        (completed_tail_last hmod (tail_in_range hmod) (by omega)))
    simp only [toNat_ite, UInt8.reduceToNat]
    split <;> split <;> omega

theorem encodeChar_ne_nil (c : Char) : String.utf8EncodeChar c ≠ [] := by
  refine List.ne_nil_of_length_pos ?_
  rw [String.length_utf8EncodeChar]
  exact c.utf8Size_pos

theorem foldl_feed_encodeChar (c : Char) (output : List Char) :
    (String.utf8EncodeChar c).foldl Decoder.feed ⟨none, output⟩ = ⟨none, c :: output⟩ := by
  cases hbytes : String.utf8EncodeChar c with
  | nil => exact absurd hbytes (encodeChar_ne_nil c)
  | cons b bytes =>
    rw [List.foldl_cons, Decoder.feed_none]
    rcases completed_of_encode hbytes with ⟨hb, hc, rfl⟩ | ⟨p, hopen, hdone⟩
    · rw [Decoder.opening_ascii hb, hc, Char.ofNat_toNat, List.foldl_nil]
    · rw [hopen, hdone.foldl_feed]

theorem encode_cons (c : Char) (text : List Char) :
    encode (c :: text) = String.utf8EncodeChar c ++ encode text :=
  List.flatMap_cons

theorem foldl_feed_encode (text output : List Char) :
    (encode text).foldl Decoder.feed ⟨none, output⟩ = ⟨none, text.reverse ++ output⟩ := by
  induction text generalizing output with
  | nil => rfl
  | cons c text ih =>
    rw [encode_cons, List.foldl_append, foldl_feed_encodeChar, ih, List.reverse_cons,
      List.append_assoc, List.singleton_append]

theorem decode_encode (text : List Char) : decode (encode text) = text := by
  rw [decode, Decoder.start, foldl_feed_encode, List.append_nil]
  exact List.reverse_reverse text

end Utf8

end SplitEditor
