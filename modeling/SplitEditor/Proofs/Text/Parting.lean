import SplitEditor.Proofs.Text.Agreement
import SplitEditor.Proofs.Text.Subpart

/-! Whole readings of the two codecs. They are the same until a byte parts the decoders, and from
then on differ by the lengths of runs of replacements. -/

namespace SplitEditor.Agreement
open Utf8 (replacement squeeze)
open Transcode (Transcoder)

variable {d : Utf8.Decoder} {t : Transcoder} {x y : UInt8}

def Tied (d : Utf8.Decoder) (t : Transcoder) : Prop :=
  ∃ text, InStep text text d t

/-- The decoders have read texts of different lengths, which differ in runs of replacements. -/
def Lagging (d : Utf8.Decoder) (t : Transcoder) : Prop :=
  ∃ early late, (InStep early late d t ∨ Behind early late d t) ∧
    squeeze early = squeeze late ∧ late.length < early.length

theorem tied_start : Tied .start .start := ⟨[], .between⟩

theorem Tied.feed (h : Tied d t) (hparts : ¬Parts d x) : Tied (d.feed x) (t.feed x) := by
  obtain ⟨text, h⟩ := h
  obtain ⟨front, h⟩ := h.feed hparts
  exact ⟨_, h⟩

theorem Tied.feed_parts (h : Tied d t) (hparts : Parts d x) :
    Lagging (d.feed x) (t.feed x) := by
  obtain ⟨text, h⟩ := h
  refine ⟨_, _, .inr (h.feed_parts hparts), ?_, Nat.lt_succ_self _⟩
  exact Utf8.squeeze_replacement_cons rfl

theorem squeeze_cons_of_head? {early late : List Char} (h : squeeze early = squeeze late)
    (hhead : late.head? = some replacement) :
    squeeze (replacement :: early) = squeeze late := by
  rw [Utf8.squeeze_cons_congr h, Utf8.squeeze_replacement_cons hhead]

theorem Lagging.feed (h : Lagging d t) (x : UInt8) : Lagging (d.feed x) (t.feed x) := by
  obtain ⟨early, late, h | h, heq, hlt⟩ := h
  · by_cases hparts : Parts d x
    · -- two replacements on one side, one on the other: both vanish in a run
      refine ⟨_, _, .inr (h.feed_parts hparts), ?_, ?_⟩
      · rw [Utf8.squeeze_replacement_cons rfl]
        exact Utf8.squeeze_cons_congr heq replacement
      · exact Nat.succ_lt_succ (Nat.lt_succ_of_lt hlt)
    · obtain ⟨front, h⟩ := h.feed hparts
      refine ⟨_, _, .inl h, Utf8.squeeze_append_congr heq front, ?_⟩
      rw [List.length_append, List.length_append]
      exact Nat.add_lt_add_left hlt _
  · obtain ⟨hhead, h⟩ | ⟨front, h⟩ := h.feed (b := x)
    · exact ⟨_, _, h.symm, squeeze_cons_of_head? heq hhead, Nat.lt_succ_of_lt hlt⟩
    · refine ⟨_, _, .inl h, Utf8.squeeze_append_congr heq front, ?_⟩
      rw [List.length_append, List.length_append]
      exact Nat.add_lt_add_left hlt _

theorem Lagging.run (h : Lagging d t) (bytes : List UInt8) :
    Lagging (bytes.foldl Utf8.Decoder.feed d) (bytes.foldl Transcoder.feed t) := by
  induction bytes generalizing d t with
  | nil => exact h
  | cons x bytes ih => exact ih (h.feed x)

/-! ### Ends of the two texts -/

theorem InStep.finish {early late : List Char} (h : InStep early late d t) :
    ∃ front, d.finish = (front ++ early).reverse ∧
      Utf16.decode t.finish = (front ++ late).reverse := by
  cases h with
  | between => exact ⟨[], rfl, decode_reverse_unitsOf late⟩
  | within h =>
    refine ⟨[replacement], rfl, ?_⟩
    simp only [Transcoder.finish, emit_replacement]
    exact decode_reverse_unitsOf (replacement :: late)

theorem Behind.finish {early late : List Char} (h : Behind early late d t) :
    d.finish = early.reverse ∧ Utf16.decode t.finish = late.reverse := by
  cases h with
  | mk hdue h =>
    refine ⟨rfl, ?_⟩
    simp only [Transcoder.finish, emit_replacement]
    exact decode_reverse_unitsOf _

theorem Tied.finish (h : Tied d t) : d.finish = Utf16.decode t.finish := by
  obtain ⟨text, h⟩ := h
  obtain ⟨front, hearly, hlate⟩ := h.finish
  rw [hearly, hlate]

theorem Lagging.finish (h : Lagging d t) :
    squeeze d.finish = squeeze (Utf16.decode t.finish) ∧
      (Utf16.decode t.finish).length < d.finish.length := by
  obtain ⟨early, late, h, heq, hlt⟩ := h
  obtain ⟨front, hearly, hlate⟩ : ∃ front, d.finish = (front ++ early).reverse ∧
      Utf16.decode t.finish = (front ++ late).reverse :=
    h.elim InStep.finish fun h => ⟨[], h.finish⟩
  rw [hearly, hlate, Utf8.squeeze_reverse, Utf8.squeeze_reverse,
    Utf8.squeeze_append_congr heq front]
  refine ⟨rfl, ?_⟩
  simp only [List.length_reverse, List.length_append]
  exact Nat.add_lt_add_left hlt _

/-! ### Bytes that part the decoders -/

theorem not_parts_none (output : List Char) : ¬Parts ⟨none, output⟩ y := by
  rintro ⟨p, hp, -⟩
  cases hp

theorem parts_some {p : Utf8.Pending} {output : List Char} :
    Parts ⟨some p, output⟩ y ↔
      IsTail y ∧ ¬(p.low.toNat ≤ y.toNat ∧ y.toNat ≤ p.high.toNat) := by
  constructor
  · rintro ⟨q, hq, h⟩
    obtain rfl := Option.some.inj hq
    exact h
  · exact fun h => ⟨p, rfl, h⟩

theorem parts_opening (output : List Char) :
    Parts (Utf8.Decoder.opening output x) y ↔ Overrun x y := by
  rw [overrun_iff]
  cases Utf8.Decoder.lead x with
  | ascii h =>
    rw [Utf8.Decoder.opening_ascii h, iff_false_left (not_parts_none _)]
    omega
  | stray h =>
    rw [Utf8.Decoder.opening_stray h, iff_false_left (not_parts_none _)]
    omega
  | two h =>
    rw [Utf8.Decoder.opens_two h output, parts_some]
    simp only [IsTail, UInt8.reduceToNat]
    omega
  | three h =>
    rw [Utf8.Decoder.opens_three h output, parts_some]
    simp only [IsTail, toNat_ite, UInt8.reduceToNat]
    split <;> split <;> omega
  | four h =>
    rw [Utf8.Decoder.opens_four h output, parts_some]
    simp only [IsTail, toNat_ite, UInt8.reduceToNat]
    split <;> split <;> omega

theorem Tied.parts_feed (h : Tied d t) : Parts (d.feed x) y ↔ Overrun x y := by
  obtain ⟨text, h⟩ := h
  cases h with
  | between => exact parts_opening text
  | @within p minimum h =>
    by_cases hin : p.low.toNat ≤ x.toNat ∧ x.toNat ≤ p.high.toNat
    · have hx : x.toNat < 0xC0 := Nat.lt_of_le_of_lt hin.2 h.high_lt
      have hover : ¬Overrun x y := by
        rw [overrun_iff]
        omega
      by_cases hdue : p.due = 1
      · rw [Utf8.Decoder.feed_last hin hdue, iff_false_right hover]
        exact not_parts_none _
      · rw [Utf8.Decoder.feed_more hin hdue, parts_some, iff_false_right hover]
        simp only [IsTail, UInt8.reduceToNat]
        omega
    · rw [Utf8.Decoder.feed_reject hin]
      exact parts_opening _

def Clean (bytes : List UInt8) : Prop := ∀ x y, [x, y] <:+: bytes → ¬Overrun x y

theorem clean_of_length {bytes : List UInt8} (h : bytes.length < 2) : Clean bytes := by
  intro x y hxy
  have hle : 2 ≤ bytes.length := hxy.length_le
  exact absurd hle (Nat.not_le.2 h)

theorem clean_cons_cons {bytes : List UInt8} :
    Clean (x :: y :: bytes) ↔ ¬Overrun x y ∧ Clean (y :: bytes) := by
  constructor
  · intro h
    exact ⟨h x y ⟨[], bytes, rfl⟩, fun a b hab => h a b (List.infix_cons hab)⟩
  · rintro ⟨hxy, h⟩ a b hab
    rcases List.infix_cons_iff.1 hab with hfirst | hlater
    · simp only [List.cons_prefix_cons] at hfirst
      rw [hfirst.1, hfirst.2.1]
      exact hxy
    · exact h a b hlater

theorem Tied.run (h : Tied d t) (hparts : ¬Parts d x) (bytes : List UInt8) :
    Clean (x :: bytes) ∧ Tied ((x :: bytes).foldl Utf8.Decoder.feed d)
        ((x :: bytes).foldl Transcoder.feed t) ∨
      ¬Clean (x :: bytes) ∧ Lagging ((x :: bytes).foldl Utf8.Decoder.feed d)
        ((x :: bytes).foldl Transcoder.feed t) := by
  induction bytes generalizing d t x with
  | nil => exact .inl ⟨clean_of_length (Nat.lt_succ_self 1), h.feed hparts⟩
  | cons y bytes ih =>
    have hstep := h.feed hparts
    rw [clean_cons_cons, List.foldl_cons, List.foldl_cons]
    -- tied decoders part at `y` exactly when `x` and `y` overrun; after that they only lag
    by_cases hover : Overrun x y
    · have hlag := hstep.feed_parts (h.parts_feed.2 hover)
      exact .inr ⟨fun hclean => hclean.1 hover, hlag.run bytes⟩
    · obtain ⟨hclean, htied⟩ | ⟨hclean, hlag⟩ := ih hstep (mt h.parts_feed.1 hover)
      · exact .inl ⟨⟨hover, hclean⟩, htied⟩
      · exact .inr ⟨fun h => hclean h.2, hlag⟩

theorem decode_cases (bytes : List UInt8) :
    Clean bytes ∧ Utf8.decode bytes = Transcode.decode bytes ∨
      ¬Clean bytes ∧ squeeze (Utf8.decode bytes) = squeeze (Transcode.decode bytes) ∧
        (Transcode.decode bytes).length < (Utf8.decode bytes).length := by
  cases bytes with
  | nil => exact .inl ⟨clean_of_length (Nat.succ_pos 1), rfl⟩
  | cons x bytes =>
    obtain ⟨hclean, h⟩ | ⟨hclean, h⟩ := tied_start.run (not_parts_none []) bytes
    · exact .inl ⟨hclean, h.finish⟩
    · exact .inr ⟨hclean, h.finish⟩

end SplitEditor.Agreement

namespace SplitEditor.Codec
open Utf8 (squeeze)
open Agreement (Overrun)

/-- Reading directly puts one replacement for every maximal subpart. Reading by way of UTF-16 gives
the same text up to the lengths of runs of replacements, never a longer one, and exactly the same
if and only if no opening byte is followed by a tail byte out of its range. -/
theorem readings_agree (bytes : List UInt8) :
    (∀ text, Utf8.Lossy bytes text ↔ text = (native.decode bytes).toList) ∧
      squeeze (native.decode bytes).toList = squeeze (manual.decode bytes).toList ∧
      (native.decode bytes = manual.decode bytes ↔
        ∀ x y, [x, y] <:+: bytes → ¬Overrun x y) ∧
      (manual.decode bytes).length ≤ (native.decode bytes).length := by
  simp only [decode, String.toList_ofList, String.length_ofList, String.ofList_inj]
  refine ⟨fun text => Utf8.lossy_iff, ?_⟩
  rcases Agreement.decode_cases bytes with ⟨hclean, heq⟩ | ⟨hover, hsqueeze, hlt⟩
  · rw [heq]
    exact ⟨rfl, iff_of_true rfl hclean, Nat.le_refl _⟩
  · refine ⟨hsqueeze, iff_of_false ?_ hover, Nat.le_of_lt hlt⟩
    intro heq
    rw [heq] at hlt
    exact Nat.lt_irrefl _ hlt

example : native.decode [0xED, 0xA0, 0x80] = "\uFFFD\uFFFD\uFFFD" ∧
    manual.decode [0xED, 0xA0, 0x80] = "\uFFFD" := by decide

end SplitEditor.Codec
