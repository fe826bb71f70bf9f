import SplitEditor.Proofs.Text.Codec
import SplitEditor.Proofs.Text.Squeeze

/-! Where the two codecs read the same text. One judges a sequence by its second byte, the other
when it is complete; in between, the first has already put replacements for bytes the second is
still collecting. -/

namespace SplitEditor.Agreement
open Utf8 (replacement squeeze)
open Transcode (Transcoder Aligned Completes)
open Transcode.Transcoder (isScalar)

/-- A byte that opens a sequence and a byte that continues sequences, but not this one. -/
def Overrun (x y : UInt8) : Prop :=
  x = 0xE0 ∧ 0x80 ≤ y ∧ y ≤ 0x9F ∨ x = 0xED ∧ 0xA0 ≤ y ∧ y ≤ 0xBF ∨
    x = 0xF0 ∧ 0x80 ≤ y ∧ y ≤ 0x8F ∨ x = 0xF4 ∧ 0x90 ≤ y ∧ y ≤ 0xBF

theorem overrun_iff {x y : UInt8} : Overrun x y ↔
    x.toNat = 0xE0 ∧ 0x80 ≤ y.toNat ∧ y.toNat ≤ 0x9F ∨
      x.toNat = 0xED ∧ 0xA0 ≤ y.toNat ∧ y.toNat ≤ 0xBF ∨
      x.toNat = 0xF0 ∧ 0x80 ≤ y.toNat ∧ y.toNat ≤ 0x8F ∨
      x.toNat = 0xF4 ∧ 0x90 ≤ y.toNat ∧ y.toNat ≤ 0xBF := by
  simp only [Overrun, UInt8.le_iff_toNat_le, ← UInt8.toNat_inj, UInt8.reduceToNat]

/-! ### Units of a text -/

def unitsOf (text : List Char) : List UInt16 := (Utf16.encode text.reverse).reverse

theorem emit_unitsOf (c : Char) (text : List Char) :
    Transcoder.emit (unitsOf text) c.toNat = ⟨none, unitsOf (c :: text)⟩ := by
  simp [Transcoder.emit, unitsOf, Utf16.encode]

theorem emit_replacement (text : List Char) :
    Transcoder.emit (unitsOf text) 0xFFFD = ⟨none, unitsOf (replacement :: text)⟩ :=
  emit_unitsOf replacement text

theorem emit_point {point : Nat} (h : point.isValidChar) (text : List Char) :
    Transcoder.emit (unitsOf text) point = ⟨none, unitsOf (Char.ofNat point :: text)⟩ := by
  rw [← emit_unitsOf, toNat_ofNat h]

theorem decode_reverse_unitsOf (text : List Char) :
    Utf16.decode (unitsOf text).reverse = text.reverse := by
  rw [unitsOf, List.reverse_reverse, Utf16.decode_encode]

/-! ### The two decoders side by side -/

inductive InStep (early late : List Char) : Utf8.Decoder → Transcoder → Prop where
  | between : InStep early late ⟨none, early⟩ ⟨none, unitsOf late⟩
  | within {p : Utf8.Pending} {minimum : Nat} (h : Aligned p minimum) :
    InStep early late ⟨some p, early⟩ ⟨some ⟨p.bits, p.due, minimum⟩, unitsOf late⟩

/-- One decoder has given a sequence up, the other still collects it, and will put the
replacement that its text already ends with. -/
inductive Behind : List Char → List Char → Utf8.Decoder → Transcoder → Prop where
  | mk {early late : List Char} {q : Transcode.Pending} (hdue : 0 < q.due)
      (h : Completes (isScalar q.minimum · = false) q.bits q.due) :
    Behind early (replacement :: late) ⟨none, early⟩ ⟨some q, unitsOf late⟩

/-- The byte continues a sequence, but not the one the decoder is in. -/
def Parts (d : Utf8.Decoder) (b : UInt8) : Prop :=
  ∃ p, d.pending = some p ∧ IsTail b ∧ ¬(p.low.toNat ≤ b.toNat ∧ b.toNat ≤ p.high.toNat)

variable {early late : List Char} {d : Utf8.Decoder} {t : Transcoder} {b : UInt8}

theorem InStep.opening (early late : List Char) (b : UInt8) :
    ∃ front, InStep (front ++ early) (front ++ late) (Utf8.Decoder.opening early b)
      (Transcoder.opening (unitsOf late) b) := by
  rcases Utf8.Decoder.opening_cases b with hascii | hstray | ⟨p, hopen, -, -⟩
  · refine ⟨[Char.ofNat b.toNat], ?_⟩
    rw [Utf8.Decoder.opening_ascii hascii, Transcoder.opening_ascii hascii,
      emit_point (.inl (Nat.lt_trans hascii (by decide)))]
    exact .between
  · refine ⟨[replacement], ?_⟩
    rw [Utf8.Decoder.opening_stray hstray, Transcoder.opening_stray hstray, emit_replacement]
    exact .between
  · obtain ⟨minimum, haligned, hopen'⟩ := Transcode.aligned_of_opens hopen
    refine ⟨[], ?_⟩
    rw [hopen early, hopen']
    exact .within haligned

theorem InStep.opening_after (early late : List Char) (b : UInt8) :
    ∃ front, InStep (front ++ early) (front ++ late)
      (Utf8.Decoder.opening (replacement :: early) b)
      (Transcoder.opening (unitsOf (replacement :: late)) b) := by
  obtain ⟨front, h⟩ := InStep.opening (replacement :: early) (replacement :: late) b
  refine ⟨front ++ [replacement], ?_⟩
  rw [List.append_assoc, List.append_assoc]
  exact h

theorem InStep.feed (h : InStep early late d t) (hparts : ¬Parts d b) :
    ∃ front, InStep (front ++ early) (front ++ late) (d.feed b) (t.feed b) := by
  cases h with
  | between => exact InStep.opening early late b
  | @within p minimum h =>
    by_cases hin : p.low.toNat ≤ b.toNat ∧ b.toNat ≤ p.high.toNat
    · by_cases hdue : p.due = 1
      · obtain ⟨hvalid, hlast⟩ := h.last hin hdue (unitsOf late)
        refine ⟨[Char.ofNat (p.bits * 64 + b.toNat % 64)], ?_⟩
        rw [Utf8.Decoder.feed_last hin hdue, hlast, emit_point hvalid]
        exact .between
      · rw [Utf8.Decoder.feed_more hin hdue, Transcoder.feed_more (h.isTail hin) hdue]
        exact ⟨[], .within (h.more hin hdue)⟩
    · -- out of range without parting them, the byte continues nothing
      have htail : ¬IsTail b := fun htail => hparts ⟨p, rfl, htail, hin⟩
      rw [Utf8.Decoder.feed_reject hin, Transcoder.feed_reject htail, emit_replacement]
      exact InStep.opening_after early late b

theorem InStep.feed_parts (h : InStep early late d t) (hparts : Parts d b) :
    Behind (replacement :: replacement :: early) (replacement :: late) (d.feed b)
      (t.feed b) := by
  obtain ⟨p, hp, htail, hout⟩ := hparts
  cases h with
  | between => cases hp
  | within h =>
    obtain rfl := Option.some.inj hp
    obtain ⟨hdue, hdoomed⟩ := h.doomed htail hout
    rw [Utf8.Decoder.feed_reject hout, Utf8.Decoder.opening_stray htail.stray,
      Transcoder.feed_more htail hdue]
    exact .mk (Nat.sub_pos_of_lt (Nat.lt_of_le_of_ne h.due_pos (Ne.symm hdue))) hdoomed

theorem Behind.feed (h : Behind early late d t) :
    late.head? = some replacement ∧
        (Behind (replacement :: early) late (d.feed b) (t.feed b) ∨
          InStep (replacement :: early) late (d.feed b) (t.feed b)) ∨
      ∃ front, InStep (front ++ early) (front ++ late) (d.feed b) (t.feed b) := by
  cases h with
  | @mk late q hpos hdoomed =>
    by_cases htail : IsTail b
    · refine .inl ⟨rfl, ?_⟩
      rw [Utf8.Decoder.feed_none, Utf8.Decoder.opening_stray htail.stray]
      have htailed := hdoomed.tail hpos (Nat.mod_lt b.toNat (by decide))
      -- the doomed sequence ends in the replacement that `late` already counts
      by_cases hdue : q.due = 1
      · have hscalar := htailed.last hdue
        rw [Transcoder.feed_last htail hdue, hscalar, if_neg (by decide), emit_replacement]
        exact .inr .between
      · rw [Transcoder.feed_more htail hdue]
        exact .inl (.mk (Nat.sub_pos_of_lt (Nat.lt_of_le_of_ne hpos (Ne.symm hdue))) htailed)
    · rw [Transcoder.feed_reject htail, emit_replacement]
      exact .inr (InStep.opening early (replacement :: late) b)

end SplitEditor.Agreement
