import SplitEditor.Proofs.Text.Utf8

/-! The transcoder byte by byte, and its two directions on a text. -/

namespace SplitEditor.Transcode

namespace Transcoder
variable {b : UInt8} {output : List UInt16}

theorem isScalar_eq_true {minimum point : Nat} :
    isScalar minimum point = true ↔ minimum ≤ point ∧ point.isValidChar := by
  simp only [isScalar, Nat.isValidChar, Bool.and_eq_true, Bool.not_eq_true', decide_eq_true_eq,
    Bool.and_eq_false_iff, decide_eq_false_iff_not]
  omega

theorem opening_ascii (h : b.toNat < 0x80) : opening output b = emit output b.toNat := by
  rw [opening, if_pos (UInt8.lt_iff_toNat_lt.2 h)]

theorem opening_stray (h : 0x80 ≤ b.toNat ∧ b.toNat < 0xC2 ∨ 0xF5 ≤ b.toNat) :
    opening output b = emit output 0xFFFD := by
  simp only [opening, UInt8.lt_iff_toNat_lt, UInt8.reduceToNat]
  grind

theorem opening_two (h : 0xC2 ≤ b.toNat ∧ b.toNat < 0xE0) :
    opening output b = ⟨some ⟨b.toNat % 32, 1, 0x80⟩, output⟩ := by
  simp only [opening, UInt8.lt_iff_toNat_lt, UInt8.reduceToNat]
  grind

theorem opening_three (h : 0xE0 ≤ b.toNat ∧ b.toNat < 0xF0) :
    opening output b = ⟨some ⟨b.toNat % 16, 2, 0x800⟩, output⟩ := by
  simp only [opening, UInt8.lt_iff_toNat_lt, UInt8.reduceToNat]
  grind

theorem opening_four (h : 0xF0 ≤ b.toNat ∧ b.toNat < 0xF5) :
    opening output b = ⟨some ⟨b.toNat % 8, 3, 0x10000⟩, output⟩ := by
  simp only [opening, UInt8.lt_iff_toNat_lt, UInt8.reduceToNat]
  grind

theorem feed_none (output : List UInt16) (b : UInt8) :
    feed ⟨none, output⟩ b = opening output b := rfl

theorem feed_reject {p : Pending} (h : ¬IsTail b) :
    feed ⟨some p, output⟩ b = opening (emit output 0xFFFD).output b := by
  simp only [feed, if_neg (mt isTail_iff.2 h)]

theorem feed_last {p : Pending} (h : IsTail b) (hdue : p.due = 1) :
    feed ⟨some p, output⟩ b =
      emit output (if isScalar p.minimum (p.bits * 64 + b.toNat % 64) then
        p.bits * 64 + b.toNat % 64 else 0xFFFD) := by
  simp only [feed, if_pos (isTail_iff.1 h), if_pos hdue]

theorem feed_more {p : Pending} (h : IsTail b) (hdue : p.due ≠ 1) :
    feed ⟨some p, output⟩ b =
      ⟨some ⟨p.bits * 64 + b.toNat % 64, p.due - 1, p.minimum⟩, output⟩ := by
  simp only [feed, if_pos (isTail_iff.1 h), if_neg hdue]

end Transcoder

/-! ### Sequences under way -/

open Transcoder (isScalar isScalar_eq_true)

def Completes (P : Nat → Prop) : Nat → Nat → Prop
  | bits, 0 => P bits
  | bits, due + 1 => ∀ r < 64, Completes P (bits * 64 + r) due

theorem Completes.tail {P : Nat → Prop} {bits due : Nat} (h : Completes P bits due) (hdue : 0 < due)
    {r : Nat} (hr : r < 64) : Completes P (bits * 64 + r) (due - 1) := by
  cases due with
  | zero => cases hdue
  | succ due => exact h r hr

theorem Completes.last {P : Nat → Prop} {bits due : Nat} (h : Completes P bits (due - 1))
    (hdue : due = 1) : P bits := by
  subst hdue
  exact h

/-- Both decoders are in the same sequence. A tail byte in range can only lead to a character,
one out of range only to a replacement. -/
structure Aligned (p : Utf8.Pending) (minimum : Nat) : Prop where
  due_pos : 0 < p.due
  le_low : 0x80 ≤ p.low.toNat
  high_lt : p.high.toNat < 0xC0
  inside : ∀ r < 64, p.low.toNat ≤ 0x80 + r ∧ 0x80 + r ≤ p.high.toNat →
    Completes (isScalar minimum · = true) (p.bits * 64 + r) (p.due - 1)
  outside : ∀ r < 64, ¬(p.low.toNat ≤ 0x80 + r ∧ 0x80 + r ≤ p.high.toNat) →
    p.due ≠ 1 ∧ Completes (isScalar minimum · = false) (p.bits * 64 + r) (p.due - 1)

theorem Aligned.of_completes {bits due minimum : Nat} (hdue : 0 < due)
    (h : Completes (isScalar minimum · = true) bits due) :
    Aligned ⟨bits, due, 0x80, 0xBF⟩ minimum where
  due_pos := hdue
  le_low := Nat.le_refl 0x80
  high_lt := Nat.lt_succ_self 0xBF
  inside r hr _ := h.tail hdue hr
  outside r hr hout := by
    simp only [UInt8.reduceToNat] at hout
    omega

theorem isScalar_eq_false {minimum point : Nat} :
    isScalar minimum point = false ↔ point < minimum ∨ ¬point.isValidChar := by
  rw [← Bool.not_eq_true, isScalar_eq_true]
  omega

theorem aligned_two {b : UInt8} (h : 0xC2 ≤ b.toNat ∧ b.toNat < 0xE0) :
    Aligned ⟨b.toNat % 32, 1, 0x80, 0xBF⟩ 0x80 := by
  refine .of_completes Nat.one_pos fun r hr => isScalar_eq_true.2 ?_
  unfold Nat.isValidChar
  omega

theorem aligned_three {b : UInt8} (h : 0xE0 ≤ b.toNat ∧ b.toNat < 0xF0) :
    Aligned ⟨b.toNat % 16, 2, if b.toNat = 0xE0 then 0xA0 else 0x80,
      if b.toNat = 0xED then 0x9F else 0xBF⟩ 0x800 := by
  constructor <;> simp only [toNat_ite, UInt8.reduceToNat]
  · decide
  · split <;> decide
  · split <;> decide
  · intro r hr hin s hs
    refine isScalar_eq_true.2 ?_
    unfold Nat.isValidChar
    split at hin <;> split at hin <;> omega
  · intro r hr hout
    refine ⟨by decide, fun s hs => isScalar_eq_false.2 ?_⟩
    unfold Nat.isValidChar
    split at hout <;> split at hout <;> omega

theorem aligned_four {b : UInt8} (h : 0xF0 ≤ b.toNat ∧ b.toNat < 0xF5) :
    Aligned ⟨b.toNat % 8, 3, if b.toNat = 0xF0 then 0x90 else 0x80,
      if b.toNat = 0xF4 then 0x8F else 0xBF⟩ 0x10000 := by
  constructor <;> simp only [toNat_ite, UInt8.reduceToNat]
  · decide
  · split <;> decide
  · split <;> decide
  · intro r hr hin s hs u hu
    refine isScalar_eq_true.2 ?_
    unfold Nat.isValidChar
    split at hin <;> split at hin <;> omega
  · intro r hr hout
    refine ⟨by decide, fun s hs u hu => isScalar_eq_false.2 ?_⟩
    unfold Nat.isValidChar
    split at hout <;> split at hout <;> omega

theorem aligned_of_opens {p : Utf8.Pending} {b : UInt8} (hopen : Utf8.Decoder.Opens b p) :
    ∃ minimum, Aligned p minimum ∧
      ∀ output, Transcoder.opening output b = ⟨some ⟨p.bits, p.due, minimum⟩, output⟩ := by
  cases Utf8.Decoder.lead b with
  | ascii h => exact absurd h hopen.not_ascii
  | stray h => exact absurd h hopen.not_stray
  | two h =>
    obtain rfl := hopen.unique (Utf8.Decoder.opens_two h)
    exact ⟨_, aligned_two h, fun _ => Transcoder.opening_two h⟩
  | three h =>
    obtain rfl := hopen.unique (Utf8.Decoder.opens_three h)
    exact ⟨_, aligned_three h, fun _ => Transcoder.opening_three h⟩
  | four h =>
    obtain rfl := hopen.unique (Utf8.Decoder.opens_four h)
    exact ⟨_, aligned_four h, fun _ => Transcoder.opening_four h⟩

namespace Aligned
variable {p : Utf8.Pending} {minimum : Nat} {b : UInt8}

theorem isTail (h : Aligned p minimum)
    (hin : p.low.toNat ≤ b.toNat ∧ b.toNat ≤ p.high.toNat) : IsTail b :=
  ⟨Nat.le_trans h.le_low hin.1, Nat.lt_of_le_of_lt hin.2 h.high_lt⟩

theorem completes (h : Aligned p minimum)
    (hin : p.low.toNat ≤ b.toNat ∧ b.toNat ≤ p.high.toNat) :
    Completes (isScalar minimum · = true) (p.bits * 64 + b.toNat % 64) (p.due - 1) := by
  refine h.inside _ (Nat.mod_lt _ (by decide)) ?_
  rwa [← (h.isTail hin).toNat_eq]

theorem doomed (h : Aligned p minimum) (htail : IsTail b)
    (hout : ¬(p.low.toNat ≤ b.toNat ∧ b.toNat ≤ p.high.toNat)) :
    p.due ≠ 1 ∧
      Completes (isScalar minimum · = false) (p.bits * 64 + b.toNat % 64) (p.due - 1) := by
  refine h.outside _ (Nat.mod_lt _ (by decide)) ?_
  rwa [← htail.toNat_eq]

theorem last (h : Aligned p minimum)
    (hin : p.low.toNat ≤ b.toNat ∧ b.toNat ≤ p.high.toNat) (hdue : p.due = 1)
    (output : List UInt16) :
    (p.bits * 64 + b.toNat % 64).isValidChar ∧
      Transcoder.feed ⟨some ⟨p.bits, p.due, minimum⟩, output⟩ b =
        Transcoder.emit output (p.bits * 64 + b.toNat % 64) := by
  have hscalar := (h.completes hin).last hdue
  refine ⟨(isScalar_eq_true.1 hscalar).2, ?_⟩
  rw [Transcoder.feed_last (h.isTail hin) hdue, if_pos hscalar]

theorem more (h : Aligned p minimum)
    (hin : p.low.toNat ≤ b.toNat ∧ b.toNat ≤ p.high.toNat) (hdue : p.due ≠ 1) :
    Aligned ⟨p.bits * 64 + b.toNat % 64, p.due - 1, 0x80, 0xBF⟩ minimum :=
  .of_completes (Nat.sub_pos_of_lt (Nat.lt_of_le_of_ne h.due_pos (Ne.symm hdue)))
    (h.completes hin)

end Aligned

/-! ### The units of a text -/

theorem foldl_feed_completed {p : Utf8.Pending} {minimum : Nat} {bytes : List UInt8} {c : Char}
    (hdone : Utf8.Completed p bytes c) (h : Aligned p minimum) (output : List UInt16) :
    bytes.foldl Transcoder.feed ⟨some ⟨p.bits, p.due, minimum⟩, output⟩ =
      Transcoder.emit output c.toNat := by
  induction hdone with
  | last hin hdue hc =>
    obtain ⟨hvalid, hlast⟩ := h.last hin hdue output
    rw [List.foldl_cons, List.foldl_nil, hlast, hc, toNat_ofNat hvalid]
  | more hin hdue hdone ih =>
    rw [List.foldl_cons, Transcoder.feed_more (h.isTail hin) hdue]
    exact ih (h.more hin hdue)

theorem foldl_feed_encodeChar (c : Char) (output : List UInt16) :
    (String.utf8EncodeChar c).foldl Transcoder.feed ⟨none, output⟩ =
      Transcoder.emit output c.toNat := by
  cases hbytes : String.utf8EncodeChar c with
  | nil => exact absurd hbytes (Utf8.encodeChar_ne_nil c)
  | cons b bytes =>
    rw [List.foldl_cons, Transcoder.feed_none]
    rcases Utf8.completed_of_encode hbytes with ⟨hb, hc, rfl⟩ | ⟨p, hopen, hdone⟩
    · rw [Transcoder.opening_ascii hb, hc, List.foldl_nil]
    · obtain ⟨minimum, haligned, hopen'⟩ := aligned_of_opens hopen
      rw [hopen', foldl_feed_completed hdone haligned]

theorem foldl_feed_encode (text : List Char) (output : List UInt16) :
    (Utf8.encode text).foldl Transcoder.feed ⟨none, output⟩ =
      ⟨none, (Utf16.encode text).reverse ++ output⟩ := by
  induction text generalizing output with
  | nil => rfl
  | cons c text ih =>
    rw [Utf8.encode_cons, List.foldl_append, foldl_feed_encodeChar, Transcoder.emit, ih]
    rw [Utf16.encode, Utf16.encode, List.flatMap_cons, List.reverse_append, List.append_assoc]

theorem ofUtf8_encode (text : List Char) : ofUtf8 (Utf8.encode text) = Utf16.encode text := by
  rw [ofUtf8, Transcoder.start, foldl_feed_encode, List.append_nil]
  exact List.reverse_reverse (Utf16.encode text)

theorem encode_eq (text : List Char) : encode text = Utf8.encode text := by
  rw [encode, toUtf8, Utf16.points_encode, List.flatMap_map, Utf8.encode]
  exact congrArg (text.flatMap ·) (funext pointBytes_toNat)

theorem decode_encode (text : List Char) : decode (Utf8.encode text) = text := by
  rw [decode, ofUtf8_encode, Utf16.decode_encode]

end SplitEditor.Transcode
